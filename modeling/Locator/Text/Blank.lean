/-!
# Blank text

The characters with the Unicode property *White_Space*, and trimming by it.
-/

namespace Locator.Text

/-- The characters with the Unicode property *White_Space*. -/
def isBlank (c : Char) : Bool :=
  ('\t' ≤ c && c ≤ '\r') || c == ' ' || c == '\x85' || c == '\xa0' || c == '\u1680' ||
    ('\u2000' ≤ c && c ≤ '\u200a') || c == '\u2028' || c == '\u2029' || c == '\u202f' ||
    c == '\u205f' || c == '\u3000'

/-- Leaves out blanks at the start. -/
def trimStart (text : List Char) : List Char :=
  text.dropWhile isBlank

/-- Leaves out blanks at the end. -/
def trimEnd (text : List Char) : List Char :=
  (text.reverse.dropWhile isBlank).reverse

/-- Leaves out blanks at both ends. -/
def trim (text : List Char) : List Char :=
  trimEnd (trimStart text)

/-- Blank throughout; the empty text is. -/
def allBlank (text : List Char) : Bool :=
  text.all isBlank

end Locator.Text
