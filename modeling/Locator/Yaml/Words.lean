import Locator.Text.Number

/-!
# Plain words that are not text

A plain scalar can be read as nothing, as a truth value or as a number. The readers of those are
here: a configuration is read with them, and what is printed is quoted when they would take it for
something other than text.
-/

namespace Locator.Yaml

def isNullWord (text : String) : Bool :=
  ["null", "Null", "NULL", "~"].contains text

def boolWord? (text : String) : Option Bool :=
  if ["true", "True", "TRUE"].contains text then some true
  else if ["false", "False", "FALSE"].contains text then some false
  else none

/-! ## Integers -/

/-- The base that the prefix of a number stands for, and the digits behind it. -/
def based? : List Char → Option (Nat × List Char)
  | '0' :: 'x' :: digits => some (16, digits)
  | '0' :: 'o' :: digits => some (8, digits)
  | '0' :: 'b' :: digits => some (2, digits)
  | _ => none

/-- Decimal digits behind a zero are no number. -/
def hasLeadingZero : List Char → Bool
  | '0' :: digits => !digits.isEmpty && digits.all Char.isDigit
  | _ => false

/-- The number that digits denote, with or without a prefix for the base. -/
def magnitude? (text : List Char) : Option Nat :=
  match based? text with
  | some (base, digits) => Text.number? base digits
  | none => if hasLeadingZero text then none else Text.number? 10 text

def dropPlus : List Char → List Char
  | '+' :: rest => rest
  | text => text

/-- The number without a sign, or with a plus, that a word denotes. -/
def unsigned? (text : List Char) : Option Nat :=
  magnitude? (dropPlus text)

/-- The word denotes an integer of 128 bits, with or without a sign. -/
def isInteger : List Char → Bool
  | '-' :: rest => (magnitude? rest).any (· ≤ Nat.pow 2 127)
  | text => (unsigned? text).any (· < Nat.pow 2 128)

/-- Digits that would be a number without the zero in front, maybe with a sign. -/
def isPaddedNumber : List Char → Bool
  | '-' :: rest | '+' :: rest => hasLeadingZero rest
  | text => hasLeadingZero text

/-! ## Floating point -/

/-- A decimal number: `digits` with the point in front of the last `fraction` of them, times a power
of ten. -/
structure Decimal where
  digits : List Char
  fraction : Nat
  exponent : Int

/-- The power of ten behind the letter, where there is one. -/
def exponent? : List Char → Option Int
  | [] => some 0
  | letter :: rest =>
    if letter != 'e' && letter != 'E' then none
    else match rest with
      | '-' :: digits => (Text.number? 10 digits).map fun value => -(value : Int)
      | text => (Text.number? 10 (dropPlus text)).map (·)

def decimal? (text : List Char) : Option Decimal :=
  let whole := text.takeWhile Char.isDigit
  let behind := text.dropWhile Char.isDigit
  let (fraction, behind) := match behind with
    | '.' :: rest => (rest.takeWhile Char.isDigit, rest.dropWhile Char.isDigit)
    | rest => ([], rest)
  if whole.isEmpty && fraction.isEmpty then none
  else (exponent? behind).map fun exponent =>
    { digits := whole ++ fraction, fraction := fraction.length, exponent }

/-- Where the numbers start that are rounded to infinity in 64 bits. -/
def infinityBound : Nat := Nat.pow 2 1024 - Nat.pow 2 970

/-- The number is finite in 64 bits. A number of at most 308 digits in front of the point is, one of
more than 309 is not. -/
def Decimal.isFinite (decimal : Decimal) : Bool :=
  let digits := decimal.digits.dropWhile (· == '0')
  let scale := decimal.exponent - decimal.fraction
  let width := digits.length + scale
  let value := (Text.number? 10 digits).getD 0
  digits.isEmpty || width ≤ 308 ||
    (width == 309 && value * Nat.pow 10 scale.toNat < infinityBound * Nat.pow 10 (-scale).toNat)

/-- The word denotes a number with a point or a power of ten, an infinity, or what is no number. -/
def isFloat (text : List Char) : Bool :=
  let unsigned := match text with
    | '-' :: rest | '+' :: rest => rest
    | text => text
  let word := String.ofList unsigned
  [".inf", ".Inf", ".INF"].contains word ||
    [".nan", ".NaN", ".NAN"].contains (String.ofList text) ||
    (decimal? unsigned).any (·.isFinite)

/-- A plain scalar with this text, or one that looks like a number, is not read as text. -/
def isNotText (text : String) : Bool :=
  let chars := text.toList
  chars.isEmpty || isNullWord text || (boolWord? text).isSome || isInteger chars ||
    isFloat chars || isPaddedNumber chars

end Locator.Yaml
