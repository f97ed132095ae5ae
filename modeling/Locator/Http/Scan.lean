import Locator.Bytes

/-!
# Reading bytes that may not all have come

A reply arrives piece by piece. A reader of a part of it is done, needs more bytes than there are,
or has found that no further bytes can make the part well-formed.

`Shrinks` and `Consumes` say how much of the bytes a reader leaves, which is what ends the loops
around it.
-/

namespace Locator.Http

inductive Scan (α : Type) where
  | done (value : α) (rest : Bytes)
  | more
  | bad
  deriving DecidableEq, Repr

/-- A reader of a part at the start of some bytes. -/
def Scanner (α : Type) := Bytes → Scan α

instance : Monad Scanner where
  pure value := fun bytes => .done value bytes
  bind scanner next := fun bytes =>
    match scanner bytes with
    | .done value rest => next value rest
    | .more => .more
    | .bad => .bad

namespace Scanner

/-- No byte satisfies what is asked for. -/
def fail {α : Type} : Scanner α := fun _ => .bad

/-- Goes on only under a condition. -/
def require (condition : Bool) : Scanner Unit := if condition then pure () else fail

/-- Takes one byte if it is wanted. -/
def byte (wanted : UInt8 → Bool) : Scanner UInt8
  | [] => .more
  | b :: rest => if wanted b then .done b rest else .bad

def exactly (b : UInt8) : Scanner Unit := do let _ ← byte (· == b)

/-- Takes the characters of a text. -/
def word (text : Bytes) : Scanner Unit :=
  match text with
  | [] => pure ()
  | b :: rest => do
    exactly b
    word rest

def carriageReturn : UInt8 := 13
def lineFeed : UInt8 := 10

/-- Takes the rest of a line, all of whose bytes must be allowed, and its end: a line feed, maybe
with a carriage return in front. -/
def line (allowed : UInt8 → Bool) : Scanner Bytes
  | [] => .more
  | b :: rest =>
    if b == lineFeed then .done [] rest
    else if b == carriageReturn then
      match exactly lineFeed rest with
      | .done () rest => .done [] rest
      | .more => .more
      | .bad => .bad
    else if allowed b then
      match line allowed rest with
      | .done bytes rest => .done (b :: bytes) rest
      | .more => .more
      | .bad => .bad
    else .bad

/-- Takes the bytes in front of a separator, all of which must be allowed, and the separator. -/
def upTo (separator : UInt8) (allowed : UInt8 → Bool) : Scanner Bytes
  | [] => .more
  | b :: rest =>
    if b == separator then .done [] rest
    else if allowed b then
      match upTo separator allowed rest with
      | .done bytes rest => .done (b :: bytes) rest
      | .more => .more
      | .bad => .bad
    else .bad

/-- Takes the bytes in front of one that ends them, all of which must be allowed. -/
def before (ends allowed : UInt8 → Bool) : Scanner Bytes
  | [] => .more
  | b :: rest =>
    if ends b then .done [] (b :: rest)
    else if allowed b then
      match before ends allowed rest with
      | .done bytes rest => .done (b :: bytes) rest
      | .more => .more
      | .bad => .bad
    else .bad

/-- Takes a number of bytes. -/
def take (count : Nat) : Scanner Bytes := fun bytes =>
  if bytes.length < count then .more else .done (bytes.take count) (bytes.drop count)

/-! ## What is left -/

variable {α β : Type}

theorem bind_eq_done_iff {scanner : Scanner α} {next : α → Scanner β} {bytes rest : Bytes}
    {value : β} :
    (scanner >>= next) bytes = .done value rest ↔
      ∃ first between, scanner bytes = .done first between ∧
        next first between = .done value rest := by
  show (match scanner bytes with
    | .done first between => next first between
    | .more => .more
    | .bad => .bad) = _ ↔ _
  cases scanner bytes <;> simp [and_assoc]

/-- A scanner leaves at most what it was given. -/
def Shrinks (scanner : Scanner α) : Prop :=
  ∀ ⦃bytes value rest⦄, scanner bytes = .done value rest → rest.length ≤ bytes.length

/-- A scanner takes at least one byte. -/
def Consumes (scanner : Scanner α) : Prop :=
  ∀ ⦃bytes value rest⦄, scanner bytes = .done value rest → rest.length < bytes.length

theorem Consumes.shrinks {scanner : Scanner α} (h : Consumes scanner) : Shrinks scanner :=
  fun _ _ _ hdone => Nat.le_of_lt (h hdone)

theorem shrinks_pure (value : α) : Shrinks (pure value : Scanner α) := by
  rintro bytes _ rest h
  obtain ⟨-, rfl⟩ := Scan.done.inj h
  exact Nat.le_refl _

theorem Shrinks.bind {scanner : Scanner α} {next : α → Scanner β} (h : Shrinks scanner)
    (hnext : ∀ value, Shrinks (next value)) : Shrinks (scanner >>= next) := by
  rintro bytes value rest hdone
  obtain ⟨first, between, hfirst, hrest⟩ := bind_eq_done_iff.1 hdone
  exact Nat.le_trans (hnext first hrest) (h hfirst)

theorem Consumes.bind {scanner : Scanner α} {next : α → Scanner β} (h : Consumes scanner)
    (hnext : ∀ value, Shrinks (next value)) : Consumes (scanner >>= next) := by
  rintro bytes value rest hdone
  obtain ⟨first, between, hfirst, hrest⟩ := bind_eq_done_iff.1 hdone
  exact Nat.lt_of_le_of_lt (hnext first hrest) (h hfirst)

theorem Shrinks.bind_consumes {scanner : Scanner α} {next : α → Scanner β} (h : Shrinks scanner)
    (hnext : ∀ value, Consumes (next value)) : Consumes (scanner >>= next) := by
  rintro bytes value rest hdone
  obtain ⟨first, between, hfirst, hrest⟩ := bind_eq_done_iff.1 hdone
  exact Nat.lt_of_lt_of_le (hnext first hrest) (h hfirst)

theorem shrinks_fail : Shrinks (fail : Scanner α) := fun _ _ _ h => nomatch h

theorem shrinks_require (condition : Bool) : Shrinks (require condition) := by
  cases condition
  · exact shrinks_fail
  · exact shrinks_pure ()

theorem consumes_byte (wanted : UInt8 → Bool) : Consumes (byte wanted) := by
  rintro bytes value rest h
  cases bytes with
  | nil => exact nomatch h
  | cons b more =>
    simp only [byte] at h
    split at h
    · obtain ⟨-, rfl⟩ := Scan.done.inj h
      exact Nat.lt_succ_self _
    · exact nomatch h

theorem consumes_exactly (b : UInt8) : Consumes (exactly b) :=
  (consumes_byte _).bind fun _ => shrinks_pure _

theorem shrinks_word (text : Bytes) : Shrinks (word text) := by
  induction text with
  | nil => exact shrinks_pure ()
  | cons b rest ih => exact ((consumes_exactly b).bind fun _ => ih).shrinks

theorem consumes_line (allowed : UInt8 → Bool) : Consumes (line allowed) := by
  rintro bytes value rest h
  fun_induction line allowed bytes generalizing value with
  | case1 => exact nomatch h
  | case2 =>
    obtain ⟨-, rfl⟩ := Scan.done.inj h
    exact Nat.lt_succ_self _
  | case3 b more _ _ more' heq =>
    obtain ⟨-, rfl⟩ := Scan.done.inj h
    exact Nat.lt_succ_of_lt (consumes_exactly _ heq)
  | case4 => exact nomatch h
  | case5 => exact nomatch h
  | case6 b more _ _ _ bytes' rest' heq ih =>
    obtain ⟨-, rfl⟩ := Scan.done.inj h
    exact Nat.lt_succ_of_lt (ih heq)
  | case7 => exact nomatch h
  | case8 => exact nomatch h
  | case9 => exact nomatch h

theorem consumes_upTo (separator : UInt8) (allowed : UInt8 → Bool) :
    Consumes (upTo separator allowed) := by
  rintro bytes value rest h
  fun_induction upTo separator allowed bytes generalizing value with
  | case1 => exact nomatch h
  | case2 =>
    obtain ⟨-, rfl⟩ := Scan.done.inj h
    exact Nat.lt_succ_self _
  | case3 b more _ _ bytes' rest' heq ih =>
    obtain ⟨-, rfl⟩ := Scan.done.inj h
    exact Nat.lt_succ_of_lt (ih heq)
  | case4 => exact nomatch h
  | case5 => exact nomatch h
  | case6 => exact nomatch h

theorem shrinks_before (ends allowed : UInt8 → Bool) : Shrinks (before ends allowed) := by
  rintro bytes value rest h
  fun_induction before ends allowed bytes generalizing value with
  | case1 => exact nomatch h
  | case2 =>
    obtain ⟨-, rfl⟩ := Scan.done.inj h
    exact Nat.le_refl _
  | case3 b more _ _ bytes' rest' heq ih =>
    obtain ⟨-, rfl⟩ := Scan.done.inj h
    exact Nat.le_succ_of_le (ih heq)
  | case4 => exact nomatch h
  | case5 => exact nomatch h
  | case6 => exact nomatch h

theorem shrinks_take (count : Nat) : Shrinks (take count) := by
  rintro bytes value rest h
  simp only [take] at h
  split at h
  · exact nomatch h
  · obtain ⟨-, rfl⟩ := Scan.done.inj h
    simp

end Scanner

end Locator.Http
