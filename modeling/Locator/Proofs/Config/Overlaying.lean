import Locator.Proofs.Config.Merging
import Locator.Proofs.Config.Variables
import Locator.Proofs.Text.Number
import Mathlib.Data.List.Forall2

/-!
# The environment as a layer

Letting the variables take effect one after another changes a configuration in place, and opens
sections on the way. What comes of it is laying one configuration over the one at hand: the one that
has the values of the variables that are set, and their sections. So the environment is a layer like
any file, provided that every variable can be read; and which texts can be read is a matter of how
numbers and switches are written.

* `Numeral`, `Switch`, `Leaf.Reads`: how values are written
* `read_eq_ok_iff`: a value is read exactly from the texts in which it is written
* `own`, `overlay_config_eq`: the layer of the environment
* `overlay_is_layer`: whether the variables can be read, what they come to, and what is reported
-/

namespace Locator

namespace Config

/-! ## How values are written -/

/-- A number is written in digits, with at most one plus in front of them. -/
def Numeral (text : List Char) (number : UInt64) : Prop :=
  ∃ sign digits, text = sign ++ digits ∧ (sign = [] ∨ sign = ['+']) ∧ digits ≠ [] ∧
    (∀ c ∈ digits, c.isDigit = true) ∧ Nat.ofDigitChars 10 digits 0 = number.toNat

/-- The words for yes and for no. -/
def switchWords : Bool → List String
  | true => ["true", "1", "yes", "on"]
  | false => ["false", "0", "no", "off"]

/-- A letter or its capital. -/
def IsLetter (c letter : Char) : Prop :=
  c = letter ∨ c = letter.toUpper

/-- A switch is written as one of its words, in small or capital letters. -/
def Switch (text : String) (value : Bool) : Prop :=
  ∃ word ∈ switchWords value, List.Forall₂ IsLetter text.toList word.toList

namespace Leaf

/-- The text of its variable gives a leaf a value. -/
def Reads : (leaf : Leaf) → String → leaf.Value → Prop
  | ttlSeconds, text, value | readTimeoutMillis, text, value =>
    Numeral (Text.trim text.toList) value
  | trustSelfSigned, text, value => Switch text value
  | legacyExtension, text, value | currentExtension, text, value => value = text

/-- What is said about a text that gives a leaf no value. -/
def complaint : Leaf → String → Violation
  | trustSelfSigned => .notABoolean
  | _ => .notAnInteger

/-- The section of a leaf. -/
def part : Leaf → Part
  | ttlSeconds => .cache
  | readTimeoutMillis | trustSelfSigned => .network
  | legacyExtension | currentExtension => .extensions

end Leaf

/-! ## Reading numbers -/

variable {text : List Char} {number : UInt64}

theorem bind_fitted?_eq_some_iff (digits : List Char) :
    (Text.number? 10 digits).bind Text.fitted? = some number ↔
      digits ≠ [] ∧ (∀ c ∈ digits, c.isDigit = true) ∧
        Nat.ofDigitChars 10 digits 0 = number.toNat := by
  simp only [Option.bind_eq_some_iff, Text.number?_ten_eq_some_iff, Text.fitted?_eq_some_iff]
  constructor
  · rintro ⟨value, ⟨hne, hdigits, rfl⟩, hvalue⟩
    exact ⟨hne, hdigits, hvalue⟩
  · rintro ⟨hne, hdigits, hvalue⟩
    exact ⟨_, ⟨hne, hdigits, rfl⟩, hvalue⟩

theorem parseNumber?_eq_some_iff :
    Environment.parseNumber? text = some number ↔ Numeral text number := by
  unfold Environment.parseNumber?
  dsimp only
  rw [bind_fitted?_eq_some_iff]
  split
  · next rest =>
    constructor
    · intro h
      exact ⟨['+'], rest, rfl, .inr rfl, h⟩
    · rintro ⟨sign, digits, htext, rfl | rfl, hne, hdigits, hvalue⟩
      · -- the plus is no digit
        obtain rfl : '+' :: rest = digits := htext
        exact absurd (hdigits '+' List.mem_cons_self) (by decide)
      · obtain rfl : rest = digits := (List.cons.inj htext).2
        exact ⟨hne, hdigits, hvalue⟩
  · next hplus =>
    constructor
    · intro h
      exact ⟨[], text, rfl, .inl rfl, h⟩
    · rintro ⟨sign, digits, rfl, rfl | rfl, h⟩
      · exact h
      · exact absurd rfl (hplus digits)

theorem readNumber_eq_ok_iff {text : String} :
    Environment.readNumber text = .ok number ↔ Numeral (Text.trim text.toList) number := by
  rw [← parseNumber?_eq_some_iff, Environment.readNumber]
  split
  · next h => rw [h, Except.ok.injEq, Option.some.injEq]
  · next h => rw [h]; simp

/-! ## Reading switches -/

/-- What becomes a word without capitals has its letters or their capitals. -/
theorem map_toLower_eq_iff {word : List Char} (h : ∀ letter ∈ word, letter.isUpper = false) :
    text.map Char.toLower = word ↔ List.Forall₂ IsLetter text word := by
  induction word generalizing text with
  | nil => rw [List.map_eq_nil_iff, List.forall₂_nil_right_iff]
  | cons letter rest ih =>
    rw [List.forall₂_cons_right_iff, List.map_eq_cons_iff]
    constructor
    · rintro ⟨c, more, rfl, hc, hmore⟩
      exact ⟨c, more, (Text.toLower_eq_iff (h letter List.mem_cons_self)).1 hc,
        (ih fun other hother => h other (List.mem_cons_of_mem letter hother)).1 hmore, rfl⟩
    · rintro ⟨c, more, hc, hmore, rfl⟩
      exact ⟨c, more, rfl, (Text.toLower_eq_iff (h letter List.mem_cons_self)).2 hc,
        (ih fun other hother => h other (List.mem_cons_of_mem letter hother)).2 hmore⟩

theorem contains_word_iff {text : String} {value : Bool} :
    (switchWords value).contains (String.ofList (text.toList.map Char.toLower)) = true ↔
      Switch text value := by
  have hsmall : ∀ word ∈ switchWords value, ∀ letter ∈ word.toList, letter.isUpper = false := by
    cases value <;> simp [switchWords]
  rw [List.contains_iff_mem, Switch]
  constructor
  · intro hmem
    exact ⟨_, hmem, (map_toLower_eq_iff (hsmall _ hmem)).1 String.toList_ofList.symm⟩
  · rintro ⟨word, hmem, hforall⟩
    rw [(map_toLower_eq_iff (hsmall word hmem)).2 hforall, String.ofList_toList]
    exact hmem

/-- No word is for both. -/
theorem not_switch_of_switch {text : String} (h : Switch text true) : ¬Switch text false := by
  rw [← contains_word_iff, List.contains_iff_mem] at h ⊢
  generalize String.ofList (text.toList.map Char.toLower) = word at h
  have hdisjoint : ∀ word ∈ switchWords true, word ∉ switchWords false := by decide
  exact hdisjoint word h

theorem readSwitch_eq_ok_iff {text : String} {value : Bool} :
    Environment.readSwitch text = .ok value ↔ Switch text value := by
  have hread : Environment.readSwitch text =
      if (switchWords true).contains (String.ofList (text.toList.map Char.toLower)) then .ok true
      else if (switchWords false).contains (String.ofList (text.toList.map Char.toLower)) then
        .ok false
      else .error (.notABoolean text) := rfl
  rw [hread]
  -- the words for true are tried first; no text is among both
  by_cases htrue : Switch text true
  · rw [if_pos (contains_word_iff.2 htrue)]
    cases value with
    | true => simp [htrue]
    | false => simp [not_switch_of_switch htrue]
  · rw [if_neg (mt contains_word_iff.1 htrue)]
    by_cases hfalse : Switch text false
    · rw [if_pos (contains_word_iff.2 hfalse)]
      cases value with
      | true => simp [htrue]
      | false => simp [hfalse]
    · rw [if_neg (mt contains_word_iff.1 hfalse)]
      cases value with
      | true => simp [htrue]
      | false => simp [hfalse]

/-! ## Reading leaves -/

section

variable {leaf : Leaf} {text : String} {environment : Environment} {error : Error}

/-- A leaf gets a value exactly from the texts in which that value is written. -/
theorem read_eq_ok_iff {value : leaf.Value} :
    leaf.read text = .ok value ↔ leaf.Reads text value := by
  cases leaf with
  | ttlSeconds => exact readNumber_eq_ok_iff
  | readTimeoutMillis => exact readNumber_eq_ok_iff
  | trustSelfSigned => exact readSwitch_eq_ok_iff
  | legacyExtension => exact ⟨fun h => (Except.ok.inj h).symm, fun h => congrArg Except.ok h.symm⟩
  | currentExtension => exact ⟨fun h => (Except.ok.inj h).symm, fun h => congrArg Except.ok h.symm⟩

theorem readNumber_error {text : String} {violation : Violation}
    (h : Environment.readNumber text = .error violation) : violation = .notAnInteger text := by
  rw [Environment.readNumber] at h
  split at h
  · cases h
  · exact (Except.error.inj h).symm

theorem readSwitch_error {text : String} {violation : Violation}
    (h : Environment.readSwitch text = .error violation) : violation = .notABoolean text := by
  simp only [Environment.readSwitch] at h
  split at h
  · cases h
  · split at h
    · cases h
    · exact (Except.error.inj h).symm

theorem read_error {violation : Violation} (h : leaf.read text = .error violation) :
    violation = leaf.complaint text := by
  cases leaf with
  | ttlSeconds => exact readNumber_error h
  | readTimeoutMillis => exact readNumber_error h
  | trustSelfSigned => exact readSwitch_error h
  | legacyExtension => cases h
  | currentExtension => cases h

theorem read_eq_error_iff {violation : Violation} :
    leaf.read text = .error violation ↔
      (¬∃ value, leaf.Reads text value) ∧ violation = leaf.complaint text := by
  simp only [← read_eq_ok_iff]
  constructor
  · intro h
    refine ⟨?_, read_error h⟩
    rintro ⟨value, hvalue⟩
    rw [h] at hvalue
    cases hvalue
  · rintro ⟨hnone, rfl⟩
    cases hread : leaf.read text with
    | ok value => exact absurd ⟨value, hread⟩ hnone
    | error violation => rw [read_error hread]

theorem layer_eq_some_iff {value : leaf.Value} :
    environment.layer leaf = some value ↔
      ∃ text, environment.text? leaf.variableName = some text ∧ leaf.Reads text value := by
  cases htext : environment.text? leaf.variableName with
  | none => simp [(Environment.layer_and_fault?_of_unset htext).1]
  | some text =>
    simp only [Option.some.injEq, exists_eq_left', ← read_eq_ok_iff, Environment.layer,
      Environment.reading?, htext, Option.map_some, Option.bind_some]
    cases leaf.read text <;> simp [Except.mapError, Except.toOption]

theorem environment_fault?_eq_some_iff :
    environment.fault? leaf = some error ↔
      ∃ text, environment.text? leaf.variableName = some text ∧
        (¬∃ value, leaf.Reads text value) ∧
        error = .validation leaf.variableName (leaf.complaint text) := by
  cases htext : environment.text? leaf.variableName with
  | none => simp [(Environment.layer_and_fault?_of_unset htext).2]
  | some text =>
    simp only [Option.some.injEq, exists_eq_left']
    cases hread : leaf.read text with
    | ok value =>
      have hreads : ∃ value, leaf.Reads text value := ⟨value, read_eq_ok_iff.1 hread⟩
      simp [(Environment.layer_and_fault?_of_read htext hread).2, hreads]
    | error violation =>
      obtain ⟨hnone, rfl⟩ := read_eq_error_iff.1 hread
      rw [Environment.fault?_of_unreadable htext hread, Option.some.injEq]
      exact ⟨fun h => ⟨hnone, h.symm⟩, fun h => h.2.symm⟩

theorem environment_fault?_eq_none_iff :
    environment.fault? leaf = none ↔
      ∀ text, environment.text? leaf.variableName = some text → ∃ value, leaf.Reads text value := by
  rw [Option.eq_none_iff_forall_ne_some]
  simp only [ne_eq, environment_fault?_eq_some_iff]
  constructor
  · intro h text htext
    by_contra hnone
    exact h _ ⟨text, htext, hnone, rfl⟩
  · rintro h error ⟨text, htext, hnone, -⟩
    exact hnone (h text htext)

end

/-! ## Sections -/

theorem has_bare (leaf : Leaf) (part : Part) : leaf.bare.has part = decide (leaf.part = part) := by
  cases leaf <;> cases part <;> rfl

theorem has_only (leaf : Leaf) (value : leaf.Value) (part : Part) :
    (leaf.only value).has part = decide (leaf.part = part) := by
  cases leaf <;> cases part <;> rfl

end Config

namespace Environment

open Config (Leaf Part)

variable {environment : Environment}

/-- One of the variables of a section is set. -/
def opens (environment : Environment) (leaves : List Leaf) (part : Part) : Bool :=
  leaves.any fun leaf => leaf.part = part && (environment.text? leaf.variableName).isSome

/-- The configuration of the environment: the values of the variables that are set, in their
sections. -/
def own (environment : Environment) : Config where
  cache :=
    if environment.opens Leaf.all .cache then some { ttlSeconds := environment.layer .ttlSeconds }
    else none
  network :=
    if environment.opens Leaf.all .network then some {
      readTimeoutMillis := environment.layer .readTimeoutMillis
      trustSelfSigned := environment.layer .trustSelfSigned }
    else none
  extensions :=
    if environment.opens Leaf.all .extensions then some {
      legacy := environment.layer .legacyExtension
      current := environment.layer .currentExtension }
    else none

theorem opens_eq_true_iff {part : Part} :
    environment.opens Leaf.all part = true ↔
      ∃ leaf : Leaf, leaf.part = part ∧ (environment.text? leaf.variableName).isSome = true := by
  simp only [opens, List.any_eq_true, Leaf.mem_all, true_and, Bool.and_eq_true, decide_eq_true_eq]

theorem has_own (environment : Environment) (part : Part) :
    environment.own.has part = environment.opens Leaf.all part := by
  cases part <;> simp only [Config.has, own] <;> split <;> simp_all

/-- A leaf whose section is not open has no value. -/
theorem layer_eq_none (leaf : Leaf) (h : environment.opens Leaf.all leaf.part = false) :
    environment.layer leaf = none := by
  have htext : environment.text? leaf.variableName = none := by
    rw [← Option.not_isSome_iff_eq_none]
    intro hsome
    rw [opens_eq_true_iff.2 ⟨leaf, rfl, hsome⟩] at h
    cases h
  exact (layer_and_fault?_of_unset htext).1

/-- A field of a section that is there when it is open, and that says nothing when it is not. -/
theorem bind_section {σ τ : Type} {isOpen : Bool} {content : σ} {field : σ → Option τ}
    (h : isOpen = false → field content = none) :
    (if isOpen then some content else none).bind field = field content := by
  cases isOpen with
  | true => rfl
  | false => exact (h rfl).symm

theorem value?_own (environment : Environment) (leaf : Leaf) :
    environment.own.value? leaf = environment.layer leaf := by
  cases leaf with
  | ttlSeconds => exact bind_section (layer_eq_none .ttlSeconds)
  | readTimeoutMillis => exact bind_section (layer_eq_none .readTimeoutMillis)
  | trustSelfSigned => exact bind_section (layer_eq_none .trustSelfSigned)
  | legacyExtension => exact bind_section (layer_eq_none .legacyExtension)
  | currentExtension => exact bind_section (layer_eq_none .currentExtension)

/-- Variables that are set open their sections. -/
theorem has_overlayBindings (leaves : List Leaf) (config : Config)
    (h : leaves.findSome? environment.fault? = none) (part : Part) :
    (environment.overlayBindings (leaves.map Leaf.binding) config).config.has part =
      (environment.opens leaves part || config.has part) := by
  induction leaves generalizing config with
  | nil => rfl
  | cons leaf rest ih =>
    have hopens : environment.opens (leaf :: rest) part =
        (decide (leaf.part = part) && (environment.text? leaf.variableName).isSome ||
          environment.opens rest part) := rfl
    rw [List.findSome?_cons] at h
    rw [hopens]
    cases htext : environment.text? leaf.variableName with
    | none =>
      rw [(layer_and_fault?_of_unset htext).2] at h
      rw [overlayBindings_of_unset htext, ih config h, Option.isSome_none, Bool.and_false,
        Bool.false_or]
    | some text =>
      cases hread : leaf.read text with
      | error violation =>
        rw [fault?_of_unreadable htext hread] at h
        cases h
      -- a variable that is read opens its section, under what the later ones do
      | ok value =>
        rw [(layer_and_fault?_of_read htext hread).2] at h
        rw [overlayBindings_of_read htext hread, ih _ h, Config.has_atop, Config.has_atop,
          Config.has_only, Config.has_bare, Option.isSome_some, Bool.and_true]
        ac_rfl

/-- When every variable can be read, what comes of them is the configuration of the environment
laid over the one at hand. -/
theorem overlay_config_eq {config : Config} (h : (environment.overlay config).error = none) :
    (environment.overlay config).config = environment.own.atop config := by
  rw [overlay_error] at h
  apply Config.ext_value?
  · intro leaf
    rw [value?_overlay h, Config.value?_atop, value?_own]
  · intro part
    rw [Config.has_atop, has_own]
    exact has_overlayBindings Leaf.all config h part

/-- The environment is one more layer. Its variables take effect when each of them that is set can
be read: numbers, with blanks around them, are digits that fit 64 bits with at most one plus in
front, and a switch is one of its words, in small or capital letters and without blanks. What comes
of it is one configuration laid over the one at hand, which has the values of the variables that are
set, and the sections of these variables. When some cannot be read, the first of them is reported,
in the order of the leaves. -/
theorem overlay_is_layer (environment : Environment) :
    (∀ config, (environment.overlay config).error = none ↔
      ∀ (leaf : Leaf) (text : String), environment.text? leaf.variableName = some text →
        ∃ value, leaf.Reads text value) ∧
    (∃ own : Config,
      (∀ (leaf : Leaf) (value : leaf.Value), own.value? leaf = some value ↔
        ∃ text, environment.text? leaf.variableName = some text ∧ leaf.Reads text value) ∧
      (∀ part : Part, own.has part = true ↔
        ∃ leaf : Leaf, leaf.part = part ∧
          (environment.text? leaf.variableName).isSome = true) ∧
      ∀ config, (environment.overlay config).error = none →
        (environment.overlay config).config = own.atop config) ∧
    ∀ config error, (environment.overlay config).error = some error ↔
      ∃ earlier leaf later text, Leaf.all = earlier ++ leaf :: later ∧
        (∀ before ∈ earlier, ∀ text, environment.text? before.variableName = some text →
          ∃ value, before.Reads text value) ∧
        environment.text? leaf.variableName = some text ∧
        (¬∃ value, leaf.Reads text value) ∧
        error = .validation leaf.variableName (leaf.complaint text) := by
  -- the layer is `own`: what each variable sets, where it can be read
  refine ⟨?_, ⟨environment.own, ?_, ?_, ?_⟩, ?_⟩
  · intro config
    rw [overlay_error, List.findSome?_eq_none_iff]
    simp only [Config.environment_fault?_eq_none_iff, Leaf.mem_all, forall_const]
  · intro leaf value
    rw [value?_own, Config.layer_eq_some_iff]
  · intro part
    rw [has_own, opens_eq_true_iff]
  · intro config h
    exact overlay_config_eq h
  · intro config error
    rw [overlay_error, List.findSome?_eq_some_iff]
    simp only [Config.environment_fault?_eq_none_iff, Config.environment_fault?_eq_some_iff]
    constructor
    · rintro ⟨earlier, leaf, later, hall, ⟨text, htext, hnone, herror⟩, hearlier⟩
      exact ⟨earlier, leaf, later, text, hall, hearlier, htext, hnone, herror⟩
    · rintro ⟨earlier, leaf, later, text, hall, hearlier, htext, hnone, herror⟩
      exact ⟨earlier, leaf, later, hall, ⟨text, htext, hnone, herror⟩, hearlier⟩

end Environment

end Locator
