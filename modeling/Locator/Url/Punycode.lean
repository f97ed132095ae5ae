/-!
# Punycode

How a label of a domain is written in ASCII: its characters inside ASCII come first, and numbers
behind them say which characters outside of it stand where. Such a character has a code
point and a position, and the numbers count how many pairs of both lie between one and the next, in
rising order.

A number is written with the digits `a` to `z` and `0` to `9`, the lowest one first. Its last digit
is the one below the threshold of its place; thresholds follow a bias, which adapts to the numbers
so far.
-/

namespace Locator.Url.Punycode

/-! ## Digits -/

def digitValue? (c : Char) : Option Nat :=
  if c.isLower then some (c.toNat - 'a'.toNat)
  else if c.isDigit then some (c.toNat - '0'.toNat + 26)
  else none

def digit (value : Nat) : Char :=
  if value < 26 then Char.ofNat ('a'.toNat + value) else Char.ofNat ('0'.toNat + (value - 26))

/-- The threshold of a place. Places are counted in steps of 36, from 36 on. -/
def threshold (bias place : Nat) : Nat := max 1 (min 26 (place - bias))

theorem threshold_pos (bias place : Nat) : 0 < threshold bias place :=
  Nat.le_max_left 1 _

/-- The bias that suits numbers of about a size. -/
def biasFor (size place : Nat) : Nat :=
  if 455 < size then biasFor (size / 35) (place + 36) else place + 36 * size / (size + 38)

/-- The bias behind a number, when there are so many characters with the one that it places. -/
def nextBias (isFirst : Bool) (number characters : Nat) : Nat :=
  let size := number / (if isFirst then 700 else 2)
  biasFor (size + size / characters) 0

def initialBias : Nat := 72

/-! ## Reading -/

/-- Reads a number, when a digit of the place has this weight. -/
def readNumber? (bias place weight : Nat) : List Char → Option (Nat × List Char)
  | [] => none
  | c :: rest =>
    match digitValue? c with
    | none => none
    | some value =>
      let limit := threshold bias place
      if value < limit then some (value * weight, rest)
      else
        match readNumber? bias (place + 36) (weight * (36 - limit)) rest with
        | none => none
        | some (more, rest) => some (value * weight + more, rest)

theorem readNumber?_length {bias place weight number : Nat} {text rest : List Char}
    (h : readNumber? bias place weight text = some (number, rest)) : rest.length < text.length := by
  fun_induction readNumber? bias place weight text generalizing number with
  | case1 => exact nomatch h
  | case2 => exact nomatch h
  | case3 =>
    obtain ⟨-, rfl⟩ := Prod.mk.inj (Option.some.inj h)
    exact Nat.lt_succ_self _
  | case4 => exact nomatch h
  | case5 =>
    rename_i hmore ih
    obtain ⟨-, rfl⟩ := Prod.mk.inj (Option.some.inj h)
    exact Nat.lt_succ_of_lt (ih hmore)

/-- Puts the characters in that numbers tell. The pair in front of which counting goes on consists
of a code point and a position. -/
def insertAll? (bias point position : Nat) (text numbers : List Char) : Option (List Char) :=
  if numbers.isEmpty then some text
  else
    match _hnumber : readNumber? bias 36 1 numbers with
    | none => none
    | some (number, rest) =>
      let characters := text.length + 1
      -- behind the last position counting goes on at the first one of the next code point
      let next := point + (position + number) / characters
      let index := (position + number) % characters
      if next.isValidChar then
        insertAll? (nextBias (position == 0) number characters) next (index + 1)
          (text.insertIdx index (Char.ofNat next)) rest
      else none
termination_by numbers.length
decreasing_by exact readNumber?_length _hnumber

/-- The first code point outside ASCII. -/
def firstPoint : Nat := 128

/-- Reads a label. The last hyphen stands in front of the numbers. -/
def decode? (label : List Char) : Option (List Char) :=
  let numbers := (label.reverse.takeWhile (· != '-')).reverse
  let text := (label.take (label.length - numbers.length)).dropLast
  insertAll? initialBias firstPoint 0 text numbers

/-! ## Writing -/

def writeNumber (bias place number : Nat) : List Char :=
  let limit := threshold bias place
  if number < limit then [digit number]
  else
    digit (limit + (number - limit) % (36 - limit)) ::
      writeNumber bias (place + 36) ((number - limit) / (36 - limit))
termination_by number
decreasing_by
  have := threshold_pos bias place
  exact Nat.lt_of_le_of_lt (Nat.div_le_self _ _) (by omega)

/-- What is known in front of a pair of a code point and a position. -/
structure Writer where
  bias : Nat := initialBias
  /-- How many pairs there were since the last number. -/
  passed : Nat := 0
  /-- How many characters are placed. -/
  placed : Nat
  isFirst : Bool := true
  /-- The numbers so far. -/
  numbers : List Char := []

namespace Writer

/-- Passes the position in front of a character of the label, and places it if it has the code
point. -/
def passCharacter (point : Nat) (writer : Writer) (c : Char) : Writer :=
  if c.toNat < point then { writer with passed := writer.passed + 1 }
  else if c.toNat = point then
    { bias := nextBias writer.isFirst writer.passed (writer.placed + 1)
      passed := 0
      placed := writer.placed + 1
      isFirst := false
      numbers := writer.numbers ++ writeNumber writer.bias 36 writer.passed }
  else writer

/-- Passes the code points from one that come in front of another, and then the positions of that
one. -/
def passPoint (label : List Char) (start : Nat) (writer : Writer) (point : Nat) : Writer :=
  let ready := { writer with passed := writer.passed + (point - start) * (writer.placed + 1) }
  let behind := label.foldl (passCharacter point) ready
  { behind with passed := behind.passed + 1 }

/-- Places the characters that have the code points, which rise. -/
def passPoints (label : List Char) (start : Nat) (writer : Writer) : List Nat → Writer
  | [] => writer
  | point :: rest => passPoints label (point + 1) (writer.passPoint label start point) rest

end Writer

def encode (label : List Char) : List Char :=
  let inside := label.filter (·.toNat < firstPoint)
  let outside := (label.map Char.toNat).filter (firstPoint ≤ ·)
  let writer : Writer := { placed := inside.length }
  inside ++ (if inside.isEmpty then [] else ['-']) ++
    (writer.passPoints label firstPoint (outside.mergeSort.eraseDups)).numbers

end Locator.Url.Punycode
