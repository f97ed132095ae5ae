import Locator.Yaml.Cursor
import Locator.Yaml.Words

/-!
# Text as a YAML scalar

`printScalar` writes a text as the value of a block mapping, in a style that reads it as the same
text again: plain where it is not taken for something else, in single quotes, as a block of lines
where it has several, and in double quotes where nothing else can hold its characters.
-/

namespace Locator.Yaml

/-- The characters that are written as they are outside double quotes. -/
def isPrintable (c : Char) : Bool :=
  c == '\n' || (' ' ≤ c && c ≤ '~') ||
    ('\xa0' ≤ c && c != '\ufeff' && c != '\ufffe' && c != '\uffff')

/-! ## What a text allows -/

/-- Two neighbours of which the first is one kind of character and the second another. -/
def hasPair (first second : Char → Bool) : List Char → Bool
  | c :: d :: rest => (first c && second d) || hasPair first second (d :: rest)
  | _ => false

def isBlankSpace (c : Char) : Bool := c == ' '

/-- A break or a space stands at an end of the text. -/
def hasBlankEnd (text : List Char) : Bool :=
  let isEnd (c : Option Char) := c.any fun c => isBlankSpace c || isBreak c
  isEnd text.head? || isEnd text.getLast?

/-- Some characters can only be written as escapes. -/
def needsEscapes (text : List Char) : Bool :=
  text.any (!isPrintable ·) || hasPair isBlankSpace isBreak text

/-- A text that starts like this is not a plain scalar. -/
def startsLikeMarkup : List Char → Bool
  | '-' :: '-' :: '-' :: _ | '.' :: '.' :: '.' :: _ => true
  | c :: rest =>
    "#,[]\x7b\x7d&*!|>'\"%@\x60".toList.contains c ||
      ("?:-".toList.contains c && endsWord rest)
  | [] => true

/-- A colon or a number sign stands where it would end a plain scalar. -/
def holdsMarkup : List Char → Bool
  | c :: d :: rest =>
    ((isSpace c || isBreak c) && d == '#') || (d == ':' && endsWord rest) || holdsMarkup (d :: rest)
  | _ => false

def allowsPlain (text : List Char) : Bool :=
  !(hasBlankEnd text || needsEscapes text || text.any isBreak || startsLikeMarkup text ||
    holdsMarkup text)

def allowsSingleQuotes (text : List Char) : Bool :=
  !(needsEscapes text || hasPair isBreak isBlankSpace text)

def allowsLines (text : List Char) : Bool :=
  !(needsEscapes text || text.getLast?.any isBlankSpace)

/-! ## Styles -/

/-- The text with its lines indented by four columns, the first one if `behindBreak`, and no line
that is empty. -/
def indentLines (behindBreak : Bool) : List Char → List Char
  | [] => []
  | c :: rest =>
    if isBreak c then c :: indentLines true rest
    else (if behindBreak then "    ".toList else []) ++ c :: indentLines false rest

/-- The text in single quotes. It holds no line feed: the breaks that it may hold are kept when it
is read. -/
def singleQuoted (text : List Char) : List Char :=
  let doubled := text.flatMap fun c => if c == '\'' then ['\'', '\''] else [c]
  '\'' :: indentLines false (doubled ++ ['\''])

/-- The character in double quotes. -/
def escaped (c : Char) : List Char :=
  if c == '"' || c == '\\' then ['\\', c]
  else if isPrintable c && !isBreak c then [c]
  else match c with
    | '\x00' => "\\0".toList
    | '\x07' => "\\a".toList
    | '\x08' => "\\b".toList
    | '\t' => "\\t".toList
    | '\n' => "\\n".toList
    | '\x0b' => "\\v".toList
    | '\x0c' => "\\f".toList
    | '\r' => "\\r".toList
    | '\x1b' => "\\e".toList
    | '\x85' => "\\N".toList
    | '\u2028' => "\\L".toList
    | '\u2029' => "\\P".toList
    | _ =>
      let code := c.toNat
      if code ≤ 0xff then "\\x".toList ++ Text.upperHexDigits 2 code
      else if code ≤ 0xffff then "\\u".toList ++ Text.upperHexDigits 4 code
      else "\\U".toList ++ Text.upperHexDigits 8 code

def doubleQuoted (text : List Char) : List Char :=
  '"' :: text.flatMap escaped ++ ['"']

/-- What says how the ends of line at the end of a block are to be read. -/
def chompingMark (text : List Char) : List Char :=
  match text.reverse with
  | [] => ['-']
  | [last] => if isBreak last then ['+'] else ['-']
  | last :: previous :: _ =>
    if !isBreak last then ['-'] else if isBreak previous then ['+'] else []

/-- The text as lines that are kept. The first line cannot show the indentation when it begins with
a blank. -/
def literal (text : List Char) : List Char :=
  let hint := if text.head?.any fun c => isBlankSpace c || isBreak c then ['2'] else []
  '|' :: hint ++ chompingMark text ++ '\n' :: indentLines true text

/-- Writes a text as a value behind a key that is indented by two columns. -/
def printScalar (text : String) : List Char :=
  let chars := text.toList
  if chars.contains '\n' then
    if allowsLines chars then literal chars else doubleQuoted chars
  else if !isNotText text && allowsPlain chars then chars
  else if allowsSingleQuotes chars then singleQuoted chars
  else doubleQuoted chars

end Locator.Yaml
