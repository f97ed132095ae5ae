import Locator.Http.Scan

/-!
# Heads of replies

What stands in front of the body of a reply: a line with the version and the status, and the
headers. `Head.scan` reads a head from the bytes that have come; `Head.consumes_scan` says that it
takes some.
-/

namespace Locator.Http

structure Head where
  /-- Version 1.0 rather than 1.1. -/
  isOld : Bool
  status : Nat
  /-- The headers in order, with their names in lower case. -/
  headers : List (String × Bytes)
  deriving DecidableEq, Repr

namespace Head

open Scanner

/-- The bytes of visible characters, of spaces, and all beyond ASCII. -/
def isTextByte (b : UInt8) : Bool := b == 9 || (31 < b && b != 127)

def charOfByte (b : UInt8) : Char := Char.ofNat b.toNat

/-- The characters of header names. -/
def isNameByte (b : UInt8) : Bool :=
  let c := charOfByte b
  b < 128 && (c.isAlphanum || "!#$%&'*+-.^_\x60|~".toList.contains c)

def isBlankByte (b : UInt8) : Bool := b == 9 || b == 32

def digit : Scanner Nat := do
  let b ← byte fun b => (charOfByte b).isDigit
  return b.toNat - '0'.toNat

/-- Passes empty lines. -/
def skipEmptyLines : Scanner Unit
  | [] => .more
  | [13] => .more
  | 13 :: 10 :: rest => skipEmptyLines rest
  | 10 :: rest => skipEmptyLines rest
  | 13 :: _ => .bad
  | bytes => .done () bytes

/-- Reads the version and the status. Words for the status may follow. -/
def statusLine : Scanner (Bool × Nat) := do
  word (Bytes.ofString "HTTP/1.")
  let minor ← digit
  require (minor ≤ 1)
  exactly 32
  let hundreds ← digit
  let tens ← digit
  let ones ← digit
  let status := hundreds * 100 + tens * 10 + ones
  require (100 ≤ status)
  let words ← line isTextByte
  require (words.head?.all (· == 32))
  return (minor == 0, status)

def trimBlanks (bytes : Bytes) : Bytes :=
  ((bytes.dropWhile isBlankByte).reverse.dropWhile isBlankByte).reverse

def header : Scanner (String × Bytes) := do
  let name ← upTo 58 isNameByte
  require !name.isEmpty
  let value ← line isTextByte
  return (String.ofList (name.map fun b => (charOfByte b).toLower), trimBlanks value)

/-- How many headers a reply may have. -/
def maxHeaders : Nat := 100

/-- Reads headers up to an empty line. There is room for a number of them. -/
def headerLines : Nat → Scanner (List (String × Bytes)) := fun room bytes =>
  match bytes with
  | [] => .more
  | b :: rest =>
    if b == lineFeed then .done [] rest
    else if b == carriageReturn then
      (do exactly lineFeed; return []) rest
    else
      match room with
      | 0 => .bad
      | room + 1 => (do return (← header) :: (← headerLines room)) (b :: rest)

def scan : Scanner Head := do
  skipEmptyLines
  let (isOld, status) ← statusLine
  return { isOld, status, headers := ← headerLines maxHeaders }

/-- The values of a header. -/
def values (head : Head) (name : String) : List Bytes :=
  (head.headers.filter (·.1 = name)).map (·.2)

/-- The head of an interim reply, which another one follows. -/
def isInterim (head : Head) : Bool := head.status < 200 && head.status ≠ 101

/-! ### What is left behind a head -/

theorem shrinks_skipEmptyLines : Shrinks skipEmptyLines := by
  rintro bytes value rest h
  fun_induction skipEmptyLines bytes with
  | case1 => exact nomatch h
  | case2 => exact nomatch h
  | case3 more ih => exact Nat.le_trans (ih h) (Nat.le_add_right _ 2)
  | case4 more ih => exact Nat.le_succ_of_le (ih h)
  | case5 => exact nomatch h
  | case6 =>
    obtain ⟨-, rfl⟩ := Scan.done.inj h
    exact Nat.le_refl _

theorem consumes_digit : Consumes digit :=
  (consumes_byte _).bind fun _ => shrinks_pure _

theorem consumes_statusLine : Consumes statusLine :=
  (shrinks_word _).bind_consumes fun _ => consumes_digit.bind fun _ =>
    (shrinks_require _).bind fun _ => (consumes_exactly _).shrinks.bind fun _ =>
    consumes_digit.shrinks.bind fun _ => consumes_digit.shrinks.bind fun _ =>
    consumes_digit.shrinks.bind fun _ => (shrinks_require _).bind fun _ =>
    (consumes_line _).shrinks.bind fun _ => (shrinks_require _).bind fun _ => shrinks_pure _

theorem consumes_header : Consumes header :=
  (consumes_upTo _ _).bind fun _ => (shrinks_require _).bind fun _ =>
    (consumes_line _).shrinks.bind fun _ => shrinks_pure _

theorem shrinks_headerLines (room : Nat) : Shrinks (headerLines room) := by
  have hend : Shrinks (do exactly lineFeed; return ([] : List (String × Bytes))) :=
    (consumes_exactly _).shrinks.bind fun _ => shrinks_pure _
  induction room with
  | zero =>
    rintro bytes value rest h
    unfold headerLines at h
    split at h
    · exact nomatch h
    · split at h
      · obtain ⟨-, rfl⟩ := Scan.done.inj h
        exact Nat.le_succ _
      · split at h
        · exact Nat.le_succ_of_le (hend h)
        · exact nomatch h
  | succ room ih =>
    rintro bytes value rest h
    unfold headerLines at h
    split at h
    · exact nomatch h
    · split at h
      · obtain ⟨-, rfl⟩ := Scan.done.inj h
        exact Nat.le_succ _
      · split at h
        · exact Nat.le_succ_of_le (hend h)
        · exact (consumes_header.shrinks.bind fun _ => ih.bind fun _ => shrinks_pure _) h

theorem consumes_scan : Consumes scan :=
  shrinks_skipEmptyLines.bind_consumes fun _ => consumes_statusLine.bind fun _ =>
    (shrinks_headerLines _).bind fun _ => shrinks_pure _

end Head

end Locator.Http
