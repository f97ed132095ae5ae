import Locator.Text.Number

/-!
# Digits and letters

Reading digits one behind the other gives the number that they denote to base ten, which is
`Nat.ofDigitChars` of the library. So a text is a number exactly when it has nothing but digits in
it, and one at least. A character becomes a small letter when it is that letter or its capital.

* `foldlM_appendDigit?`: reading digits behind a number
* `number?_ten_eq_some_iff`: which texts are numbers, and which
* `number?_hexDigits`, `number?_upperHexDigits`: reading digits to base sixteen that were written
* `toLower_eq_iff`: which characters become a letter
-/

namespace Locator.Text

variable {c : Char} {digits : List Char} {value : Nat}

/-! ## Numbers to base ten -/

theorem toNat_le_of_isDigit (h : c.isDigit = true) : 48 ≤ c.toNat ∧ c.toNat ≤ 57 :=
  Char.isDigit_iff_toNat.mp h

theorem digitValue?_of_isDigit (h : c.isDigit = true) : digitValue? c = some (c.toNat - 48) := by
  rw [digitValue?, if_pos h]
  rfl

/-- What is no digit to base ten is worth ten at least, if anything. -/
theorem ten_le_of_digitValue? (h : c.isDigit = false) (hvalue : digitValue? c = some value) :
    10 ≤ value := by
  simp only [digitValue?, h, Bool.false_eq_true, if_false] at hvalue
  split at hvalue
  · obtain rfl := Option.some.inj hvalue
    omega
  · split at hvalue
    · obtain rfl := Option.some.inj hvalue
      omega
    · cases hvalue

theorem appendDigit?_ten (value : Nat) (c : Char) :
    appendDigit? 10 value c =
      if c.isDigit then some (10 * value + (c.toNat - 48)) else none := by
  cases hc : c.isDigit with
  | true =>
    have hbounds := toNat_le_of_isDigit hc
    rw [appendDigit?, digitValue?_of_isDigit hc, Option.bind_some, if_pos (by omega), if_pos rfl,
      Nat.mul_comm]
  | false =>
    rw [appendDigit?, if_neg Bool.false_ne_true]
    cases hvalue : digitValue? c with
    | none => rfl
    | some digit => rw [Option.bind_some, if_neg (Nat.not_lt.2 (ten_le_of_digitValue? hc hvalue))]

/-- Digits behind a number give a number, and anything else does not. -/
theorem foldlM_appendDigit? (digits : List Char) (value : Nat) :
    digits.foldlM (appendDigit? 10) value =
      if digits.all Char.isDigit then some (Nat.ofDigitChars 10 digits value) else none := by
  induction digits generalizing value with
  | nil => rfl
  | cons c rest ih =>
    rw [List.foldlM_cons, appendDigit?_ten, List.all_cons, Nat.ofDigitChars_cons]
    cases c.isDigit with
    | true => exact ih _
    | false => rfl

/-- A number is one digit or more, and has the value that they denote. -/
theorem number?_ten_eq_some_iff :
    number? 10 digits = some value ↔
      digits ≠ [] ∧ (∀ c ∈ digits, c.isDigit = true) ∧ Nat.ofDigitChars 10 digits 0 = value := by
  rw [number?, foldlM_appendDigit?]
  cases digits with
  | nil => simp
  | cons c rest =>
    simp only [List.isEmpty_cons, Bool.false_eq_true, if_false, ne_eq, reduceCtorEq,
      not_false_eq_true, true_and, Option.ite_none_right_eq_some, List.all_eq_true,
      Option.some.injEq]

theorem fitted?_eq_some_iff {number : UInt64} :
    fitted? value = some number ↔ value = number.toNat := by
  rw [fitted?]
  constructor
  · intro h
    split at h
    · next hlt =>
      obtain rfl := Option.some.inj h
      exact (UInt64.toNat_ofNat_of_lt' hlt).symm
    · cases h
  · rintro rfl
    rw [if_pos (UInt64.toNat_lt_size number), UInt64.ofNat_toNat]

/-! ## Numbers to base sixteen -/

/-- The digits of a number, in small letters or in capitals, denote the number. -/
theorem foldlM_map_toDigits {write : Char → Char}
    (hwrite : ∀ digit < 16, digitValue? (write (Nat.digitChar digit)) = some digit) (value : Nat) :
    ((Nat.toDigits 16 value).map write).foldlM (appendDigit? 16) 0 = some value := by
  have happend (front digit : Nat) (h : digit < 16) :
      appendDigit? 16 front (write (Nat.digitChar digit)) = some (front * 16 + digit) := by
    rw [appendDigit?, hwrite digit h, Option.bind_some, if_pos h]
  induction value using Nat.strongRecOn with
  | ind value ih =>
    by_cases hlt : value < 16
    · rw [Nat.toDigits_of_lt_base hlt, List.map_singleton, List.foldlM_cons, happend 0 value hlt]
      simp
    · -- all digits but the last denote what is left without it
      rw [Nat.toDigits_of_base_le (by decide) (Nat.not_lt.1 hlt), List.map_append,
        List.foldlM_append, ih (value / 16) (by omega), List.map_singleton, Option.bind_eq_bind,
        Option.bind_some, List.foldlM_cons, happend _ _ (Nat.mod_lt _ (by decide))]
      simp [Nat.div_add_mod']

theorem length_hexDigits {width : Nat} (hwidth : 0 < width) (h : value < Nat.pow 16 width) :
    (hexDigits width value).length = width := by
  have hlength := (Nat.length_toDigits_le_iff (b := 16) (by decide) hwidth).2 h
  rw [hexDigits, List.length_append, List.length_replicate]
  omega

/-- Zeros in front make no difference. -/
theorem number?_map_hexDigits {write : Char → Char} {width : Nat} (hwidth : 0 < width)
    (hwrite : ∀ digit < 16, digitValue? (write (Nat.digitChar digit)) = some digit)
    (h : value < Nat.pow 16 width) :
    number? 16 ((hexDigits width value).map write) = some value := by
  have hne : ((hexDigits width value).map write).isEmpty = false := by
    rw [List.isEmpty_eq_false_iff, ← List.length_pos_iff, List.length_map,
      length_hexDigits hwidth h]
    exact hwidth
  have hzero : appendDigit? 16 0 (write '0') = some 0 := by
    rw [appendDigit?, show write '0' = write (Nat.digitChar 0) from rfl, hwrite 0 (by decide)]
    rfl
  have hzeros (count : Nat) :
      ((List.replicate count '0').map write).foldlM (appendDigit? 16) 0 = some 0 := by
    induction count with
    | zero => rfl
    | succ count ih =>
      rw [List.replicate_succ, List.map_cons, List.foldlM_cons, hzero]
      exact ih
  rw [number?, hne, if_neg Bool.false_ne_true, hexDigits, List.map_append, List.foldlM_append,
    hzeros]
  exact foldlM_map_toDigits hwrite value

theorem number?_hexDigits {width : Nat} (hwidth : 0 < width) (h : value < Nat.pow 16 width) :
    number? 16 (hexDigits width value) = some value := by
  have hmap : number? 16 ((hexDigits width value).map id) = some value :=
    number?_map_hexDigits hwidth (by decide) h
  rwa [List.map_id] at hmap

theorem number?_upperHexDigits {width : Nat} (hwidth : 0 < width) (h : value < Nat.pow 16 width) :
    number? 16 (upperHexDigits width value) = some value :=
  number?_map_hexDigits hwidth (by decide) h

theorem isSome_digitValue?_of_foldlM {base front : Nat}
    (h : digits.foldlM (appendDigit? base) front = some value) :
    ∀ c ∈ digits, (digitValue? c).isSome = true := by
  induction digits generalizing front with
  | nil => exact nofun
  | cons c digits ih =>
    obtain ⟨next, hnext, hmore⟩ := Option.bind_eq_some_iff.1 h
    obtain ⟨digit, hdigit, -⟩ := Option.bind_eq_some_iff.1 hnext
    exact List.forall_mem_cons.2 ⟨by rw [hdigit]; rfl, ih hmore⟩

/-- A number has nothing but digits in it. -/
theorem isSome_digitValue? {base : Nat} (h : number? base digits = some value) :
    ∀ c ∈ digits, (digitValue? c).isSome = true := by
  rw [number?] at h
  split at h
  · cases h
  · exact isSome_digitValue?_of_foldlM h

/-! ## Small letters and capitals -/

theorem toNat_toLower (c : Char) :
    c.toLower.toNat = if 65 ≤ c.toNat ∧ c.toNat ≤ 90 then c.toNat + 32 else c.toNat := by
  delta Char.toLower
  split
  · next h =>
    have hcapital : 65 ≤ c.toNat ∧ c.toNat ≤ 90 := h
    rw [if_pos hcapital, Char.toNat_mk, UInt32.toNat_add, Char.toNat_val]
    exact Nat.mod_eq_of_lt (Nat.lt_of_le_of_lt (Nat.add_le_add_right hcapital.2 32) (by decide))
  · next h =>
    have hother : ¬(65 ≤ c.toNat ∧ c.toNat ≤ 90) := h
    rw [if_neg hother]

theorem toNat_toUpper (c : Char) :
    c.toUpper.toNat = if 97 ≤ c.toNat ∧ c.toNat ≤ 122 then c.toNat - 32 else c.toNat := by
  have hshift : ('A'.val - 'a'.val).toNat = 2 ^ 32 - 32 := by decide
  delta Char.toUpper
  split
  · next h =>
    have hsmall : 97 ≤ c.toNat ∧ c.toNat ≤ 122 := h
    rw [if_pos hsmall, Char.toNat_mk, UInt32.toNat_add, Char.toNat_val, hshift]
    omega
  · next h =>
    have hother : ¬(97 ≤ c.toNat ∧ c.toNat ≤ 122) := h
    rw [if_neg hother]

/-- What becomes a letter that is no capital is the letter itself or its capital. -/
theorem toLower_eq_iff {letter : Char} (h : letter.isUpper = false) :
    c.toLower = letter ↔ c = letter ∨ c = letter.toUpper := by
  have hletter : ¬(65 ≤ letter.toNat ∧ letter.toNat ≤ 90) := by
    intro hcapital
    have htrue : letter.isUpper = true := decide_eq_true hcapital
    rw [h] at htrue
    cases htrue
  simp only [← Char.toNat_inj, toNat_toLower, toNat_toUpper]
  split <;> split <;> omega

end Locator.Text
