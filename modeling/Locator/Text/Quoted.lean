import Locator.Text.Blank
import Locator.Text.Number

/-!
# Quoted text

Text in double quotes with escapes for what would not show: control characters, blanks other than
the space, characters that only change how others look, and code points without a character.
-/

namespace Locator.Text

/-- The ranges of code points that do not show on their own, besides blanks. -/
def hiddenRanges : List (Nat × Nat) := [
  (0x00, 0x1f), (0x7f, 0x9f), (0xad, 0xad), (0x300, 0x36f), (0x483, 0x489), (0x600, 0x605),
  (0x61c, 0x61c), (0x180e, 0x180e), (0x200b, 0x200f), (0x202a, 0x202e), (0x2060, 0x206f),
  (0x20d0, 0x20f0), (0xe000, 0xf8ff), (0xfe00, 0xfe0f), (0xfe20, 0xfe2f), (0xfeff, 0xfeff),
  (0xfff0, 0xfffb), (0xfffe, 0xffff), (0xe0000, 0x10ffff)]

def isHidden (c : Char) : Bool :=
  (c != ' ' && isBlank c) || hiddenRanges.any fun (first, last) =>
    first ≤ c.toNat && c.toNat ≤ last

/-- The character in quoted text. -/
def quotedChar (c : Char) : List Char :=
  match c with
  | '"' => ['\\', '"']
  | '\\' => ['\\', '\\']
  | '\x00' => ['\\', '0']
  | '\t' => ['\\', 't']
  | '\n' => ['\\', 'n']
  | '\r' => ['\\', 'r']
  | c => if isHidden c then "\\u\x7b".toList ++ hexDigits 1 c.toNat ++ ['\x7d'] else [c]

def quoted (text : String) : String :=
  "\"" ++ String.ofList (text.toList.flatMap quotedChar) ++ "\""

end Locator.Text
