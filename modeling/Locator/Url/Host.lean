import Locator.Url.Domain
import Locator.Url.Fault
import Locator.Url.Percent

/-!
# Hosts

The host of a URL is a domain or an address. An address of version 4 can be written in several ways,
also with fewer than four numbers and to other bases; one of version 6 stands in brackets.
-/

namespace Locator.Url

inductive Host where
  | domain (name : String)
  /-- The address as one number of 32 bits. -/
  | ipv4 (address : Nat)
  /-- The eight numbers of 16 bits that the address consists of. -/
  | ipv6 (pieces : List Nat)
  deriving DecidableEq, Repr

namespace Host

/-! ## Addresses of version 4 -/

/-- A number of an address, to the base that its prefix tells. -/
def ipv4Number? : List Char → Option Nat
  | [] => none
  | ['0'] => some 0
  | '0' :: 'x' :: digits | '0' :: 'X' :: digits =>
    if digits.isEmpty then some 0 else Text.number? 16 digits
  | '0' :: digits => Text.number? 8 digits
  | digits => Text.number? 10 digits

/-- The parts between the dots, without an empty one at the end. -/
def dottedParts (text : List Char) : List (List Char) :=
  let parts := Text.split '.' text
  if 1 < parts.length && parts.getLast? == some [] then parts.dropLast else parts

/-- The last part is a number, so that the whole has to be an address. -/
def endsInNumber (text : List Char) : Bool :=
  match (dottedParts text).getLast? with
  | some part => (!part.isEmpty && part.all Char.isDigit) || (ipv4Number? part).isSome
  | none => false

/-- The address that numbers stand for: each but the last is one byte, and the last one is the
rest. -/
def ipv4OfNumbers? (numbers : List Nat) : Option Nat :=
  match numbers.reverse with
  | [] => none
  | last :: leading =>
    if 3 < leading.length || leading.any (255 < ·) then none
    else
      let upper := leading.reverse.foldl (fun value number => value * 256 + number) 0
      let width := Nat.pow 256 (4 - leading.length)
      if last < width then some (upper * width + last) else none

def ipv4? (text : List Char) : Option Nat :=
  ((dottedParts text).mapM ipv4Number?).bind ipv4OfNumbers?

def ipv4Text (address : Nat) : String :=
  ".".intercalate ([24, 16, 8, 0].map fun shift => toString (address / Nat.pow 2 shift % 256))

/-! ## Addresses of version 6 -/

/-- One number, of up to four digits. -/
def ipv6Piece? (text : List Char) : Option Nat :=
  if 4 < text.length then none else Text.number? 16 text

/-- A decimal byte without a zero in front. -/
def byte? (text : List Char) : Option Nat :=
  match text with
  | '0' :: _ :: _ => none
  | digits => (Text.number? 10 digits).filter (· < 256)

/-- The two numbers that an address of version 4 stands for. -/
def embedded? (text : List Char) : Option (List Nat) := do
  match ← (Text.split '.' text).mapM byte? with
  | [a, b, c, d] => some [a * 256 + b, c * 256 + d]
  | _ => none

/-- The numbers between the colons, of which the last two may be written as an address of version
4. -/
def ipv6Pieces? : List (List Char) → Option (List Nat)
  | [] => some []
  | [last] => if last.contains '.' then embedded? last else (ipv6Piece? last).map ([·])
  | piece :: rest => do return (← ipv6Piece? piece) :: (← ipv6Pieces? rest)

/-- The text in front of the first double colon, and behind it. -/
def atDoubleColon? : List Char → Option (List Char × List Char)
  | ':' :: ':' :: rest => some ([], rest)
  | c :: rest => (atDoubleColon? rest).map fun (before, after) => (c :: before, after)
  | [] => none

/-- Reads an address. A double colon stands for as many zeros as are missing, one at least. -/
def ipv6? (text : List Char) : Option (List Nat) :=
  let piecesOf (part : List Char) : Option (List Nat) :=
    if part.isEmpty then some [] else ipv6Pieces? (Text.split ':' part)
  match atDoubleColon? text with
  | none => (ipv6Pieces? (Text.split ':' text)).filter (·.length = 8)
  | some (before, after) => do
    if before.contains '.' then none
    let front ← piecesOf before
    let back ← piecesOf after
    let missing := 8 - (front.length + back.length)
    if missing = 0 then none else some (front ++ List.replicate missing 0 ++ back)

/-- Where the first of the longest runs of zeros starts, and how long it is. -/
def longestRun (position : Nat) (best : Nat × Nat) : List Nat → Nat × Nat
  | [] => best
  | piece :: rest =>
    let run := ((piece :: rest).takeWhile (· = 0)).length
    longestRun (position + 1) (if best.2 < run then (position, run) else best) rest

def ipv6Text (pieces : List Nat) : String :=
  let written (part : List Nat) : String :=
    ":".intercalate (part.map fun piece => String.ofList (Nat.toDigits 16 piece))
  let (start, run) := longestRun 0 (0, 0) pieces
  if run < 2 then written pieces
  else written (pieces.take start) ++ "::" ++ written (pieces.drop (start + run))

/-! ## Hosts in general -/

/-- Reads a host. A domain is taken in the form given; it may be written with percent escapes. -/
def parse (domains : DomainForm) (text : List Char) : Except Fault Host :=
  match text with
  | '[' :: rest =>
    match rest.reverse with
    | ']' :: inner =>
      match ipv6? inner.reverse with
      | some pieces => .ok (.ipv6 pieces)
      | none => .error .invalidIpv6
    | _ => .error .invalidIpv6
  | _ =>
    match (Bytes.toString? (percentDecode text)).bind fun name => domains name.toList with
    | none => .error .invalidDomain
    | some name =>
      if name.isEmpty then .error .emptyHost
      else if endsInNumber name then
        match ipv4? name with
        | some address => .ok (.ipv4 address)
        | none => .error .invalidIpv4
      else .ok (.domain (String.ofList name))

/-- The characters that no host of an unknown scheme holds. -/
def isForbiddenOpaque (c : Char) : Bool :=
  "\x00\t\n\r #/:<>?@[\\]^|".toList.contains c

/-- The characters of an authority that stand for themselves. -/
def isAuthorityChar (c : Char) : Bool :=
  c.isAlphanum || "!$&'()*+,-.:;=_~".toList.contains c

/-- Checks the host of an unknown scheme, which is any text or an address in brackets. -/
def checkOpaque (domains : DomainForm) (text : List Char) : Except Fault Unit :=
  if text.head? == some '[' then (parse domains text).map fun _ => ()
  else if text.any isForbiddenOpaque then .error .forbiddenHostCharacter
  else .ok ()

/-- A domain may hold quotation marks, backquotes and braces, but no request can name it then. -/
def isRequestable : Host → Bool
  | domain name => !name.toList.any ("\"\x60\x7b\x7d".toList.contains ·)
  | ipv4 _ | ipv6 _ => true

def text : Host → String
  | domain name => name
  | ipv4 address => ipv4Text address
  | ipv6 pieces => "[" ++ ipv6Text pieces ++ "]"

end Host

end Locator.Url
