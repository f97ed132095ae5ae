/-!
# Digits and numbers

Reading and writing natural numbers to a base of up to sixteen.
-/

namespace Locator.Text

/-- The value of a digit to base sixteen. -/
def digitValue? (c : Char) : Option Nat :=
  if c.isDigit then some (c.toNat - '0'.toNat)
  else if 'a' ≤ c && c ≤ 'f' then some (c.toNat - 'a'.toNat + 10)
  else if 'A' ≤ c && c ≤ 'F' then some (c.toNat - 'A'.toNat + 10)
  else none

/-- One more digit behind a number. -/
def appendDigit? (base value : Nat) (c : Char) : Option Nat :=
  (digitValue? c).bind fun digit => if digit < base then some (value * base + digit) else none

/-- The number that digits denote; there must be at least one. -/
def number? (base : Nat) (digits : List Char) : Option Nat :=
  if digits.isEmpty then none else digits.foldlM (appendDigit? base) 0

/-- A number in 64 bits, if it fits. -/
def fitted? (value : Nat) : Option UInt64 :=
  if value < UInt64.size then some (UInt64.ofNat value) else none

/-- The digits of a number in base sixteen, with zeros in front up to `width` of them. -/
def hexDigits (width value : Nat) : List Char :=
  let digits := Nat.toDigits 16 value
  List.replicate (width - digits.length) '0' ++ digits

def upperHexDigits (width value : Nat) : List Char :=
  (hexDigits width value).map Char.toUpper

end Locator.Text
