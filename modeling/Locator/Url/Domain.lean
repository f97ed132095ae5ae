import Locator.Text.Blank
import Locator.Text.Split
import Locator.Url.Punycode

/-!
# Domains

The form of a domain that names are looked up by is all ASCII. Letters count in lower case and other
shapes of a character like its plain one; labels that still have characters outside ASCII are
written in Punycode. Which characters these are takes tables of all of Unicode to tell, so reading
URLs is given the form of domains, as a `DomainForm`, and nothing that is said about reading pages
rests on one of them. `Domain.toAscii?` is one that knows a part of the tables: the capitals of four
alphabets, digits of other shapes, and full width. A character that it does not know counts as it
is.
-/

namespace Locator.Url

/-- The form of a domain that names are looked up by, unless there is none. -/
abbrev DomainForm := List Char → Option (List Char)

end Locator.Url

namespace Locator.Url.Domain

/-! ## Characters -/

def isWithin (ranges : List (Nat × Nat)) (c : Char) : Bool :=
  ranges.any fun (first, last) => first ≤ c.toNat && c.toNat ≤ last

/-- The code points that do not count. -/
def ignoredRanges : List (Nat × Nat) := [
  (0xad, 0xad), (0x34f, 0x34f), (0x180b, 0x180d), (0x180f, 0x180f), (0x200b, 0x200b),
  (0x2060, 0x2060), (0x2064, 0x2064), (0xfe00, 0xfe0f), (0xfeff, 0xfeff), (0xe0100, 0xe01ef)]

/-- The code points that no domain holds: controls, marks of direction, joiners, and those without a
character of their own. -/
def refusedRanges : List (Nat × Nat) := [
  (0x80, 0x9f), (0x61c, 0x61c), (0x180e, 0x180e), (0x200c, 0x200f), (0x2028, 0x202e),
  (0x2061, 0x2063), (0x2065, 0x206f), (0xe000, 0xf8ff), (0xfdd0, 0xfdef), (0xfff0, 0xffff),
  (0xe0000, 0xe00ff), (0xe01f0, 0x10ffff)]

/-- The ranges of capital letters, and how far behind them the small ones are. -/
def capitalRanges : List ((Nat × Nat) × Nat) := [
  ((0x41, 0x5a), 32), ((0xc0, 0xd6), 32), ((0xd8, 0xde), 32), ((0x391, 0x3a1), 32),
  ((0x3a3, 0x3ab), 32), ((0x400, 0x40f), 80), ((0x410, 0x42f), 32), ((0x531, 0x556), 48)]

def toSmall (c : Char) : Char :=
  match capitalRanges.find? fun (range, _) => isWithin [range] c with
  | some (_, distance) => Char.ofNat (c.toNat + distance)
  | none => c

/-- The ranges of digits of other shapes, and what the first one of each stands for. -/
def shapedDigits : List ((Nat × Nat) × Nat) := [
  ((0xb9, 0xb9), 1), ((0xb2, 0xb3), 2), ((0x2070, 0x2070), 0), ((0x2074, 0x2079), 4),
  ((0x2080, 0x2089), 0), ((0x2460, 0x2468), 1), ((0x24ea, 0x24ea), 0), ((0x1d7ce, 0x1d7d7), 0),
  ((0x1d7d8, 0x1d7e1), 0), ((0x1d7e2, 0x1d7eb), 0), ((0x1d7ec, 0x1d7f5), 0),
  ((0x1d7f6, 0x1d7ff), 0)]

/-- The plain shape of a character: of a digit, of one with full width, of a stop or of a blank. -/
def toPlain (c : Char) : Char :=
  match shapedDigits.find? fun (range, _) => isWithin [range] c with
  | some ((first, _), value) => Char.ofNat ('0'.toNat + value + (c.toNat - first))
  | none =>
    if '\uff01' ≤ c && c ≤ '\uff5e' then Char.ofNat (c.toNat - '\uff01'.toNat + '!'.toNat)
    else if c == '\u3002' || c == '\uff61' then '.'
    else if Text.isBlank c then ' '
    else c

/-- What a character counts as, if it counts. -/
def fold? (c : Char) : Option Char :=
  if isWithin ignoredRanges c then none else some (toSmall (toPlain c))

/-! ## Labels -/

/-- The code points of marks on the character in front, of which there must be one. -/
def markRanges : List (Nat × Nat) := [
  (0x300, 0x36f), (0x483, 0x489), (0x20d0, 0x20f0), (0xfe20, 0xfe2f)]

def isAscii (label : List Char) : Bool := label.all (·.toNat < Punycode.firstPoint)

/-- A label of folded characters that have a meaning together. -/
def isValid (label : List Char) : Bool :=
  !label.any (isWithin refusedRanges) && !label.head?.any (isWithin markRanges)

/-- What a label in Punycode starts with. -/
def mark : List Char := "xn--".toList

/-- The form of a label in ASCII. One in Punycode stays as it is, but the label that it stands for
must be a valid one that has no other form. -/
def label? (label : List Char) : Option (List Char) :=
  if mark.isPrefixOf label then
    ((Punycode.decode? (label.drop mark.length)).filter fun decoded =>
      !isAscii decoded && isValid decoded && decoded.filterMap fold? == decoded).map fun _ => label
  else if isAscii label then some label
  else if isValid label then some (mark ++ Punycode.encode label)
  else none

/-! ## Domains -/

/-- The characters that no domain holds in its ASCII form. -/
def isForbidden (c : Char) : Bool :=
  c ≤ ' ' || c == '\x7f' || "%#/:<>?@[\\]^|".toList.contains c

/-- The form of a domain in ASCII, unless it cannot be one. -/
def toAscii? : DomainForm := fun text => do
  let labels ← (Text.split '.' (text.filterMap fold?)).mapM label?
  let domain := ['.'].intercalate labels
  if domain.any isForbidden then none else some domain

end Locator.Url.Domain
