import Locator.Bytes
import Locator.Text.Number
import Locator.Yaml.Cursor

/-!
# Names, tags and directives of YAML text

What may stand in front of a node or of a document: the name of an anchor, a tag that says what a
node means, and the directives that fix the version and the handles of tags. A tag is a sequence of
bytes, because its percent escapes denote bytes; a NUL byte ends it.
-/

namespace Locator.Yaml

/-- What ends the name of an anchor. -/
def endsName (text : List Char) : Bool :=
  endsWord text || text.head?.any ("?:,]\x7d%@\x60".toList.contains ·)

/-- Reads the name of an anchor behind its indicator. -/
def scanName (cursor : Cursor) : Option (String × Cursor) :=
  let name := cursor.taken isNameChar
  let next := cursor.skipWhile isNameChar
  if name.isEmpty || !endsName next.rest then none else some (String.ofList name, next)

/-! ## Tags -/

/-- A tag as it is written: a handle, which a directive can give a meaning, and what follows it. -/
structure WrittenTag where
  handle : String
  suffix : Bytes
  deriving DecidableEq, Repr

/-- The characters of a tag that stand for themselves. Those that brackets use are not among them in
a tag without angle brackets. -/
def isUriChar (angled : Bool) (c : Char) : Bool :=
  isNameChar c || ";/?:@&=+$.!~*'()".toList.contains c || (angled && ",[]".toList.contains c)

/-- The number of bytes of a character that its first byte announces. -/
def byteCount? (first : UInt8) : Option Nat :=
  if first < 0x80 then some 1
  else if 0xc0 ≤ first && first < 0xe0 then some 2
  else if 0xe0 ≤ first && first < 0xf0 then some 3
  else if 0xf0 ≤ first && first < 0xf8 then some 4
  else none

/-- The bytes that the characters of a tag denote and how many characters they are. Escaped bytes
stand together as characters, of which the current one lacks `due` bytes. -/
def scanUri (angled : Bool) (due : Nat) : List Char → Option (Bytes × Nat)
  | '%' :: high :: low :: rest => do
    let octet := UInt8.ofNat ((← Text.digitValue? high) * 16 + (← Text.digitValue? low))
    -- the upper bits of a byte say whether it starts a character or goes on with one
    let due ←
      if due = 0 then (byteCount? octet).map (· - 1)
      else if 0x80 ≤ octet && octet < 0xc0 then some (due - 1)
      else none
    let (more, count) ← scanUri angled due rest
    return (octet :: more, count + 3)
  | c :: rest =>
    if due ≠ 0 || c == '%' then none
    else if isUriChar angled c then do
      let (more, count) ← scanUri angled 0 rest
      return (UInt8.ofNat c.toNat :: more, count + 1)
    else some ([], 0)
  | [] => if due = 0 then some ([], 0) else none

/-- Reads the text of a tag up to what cannot belong to it. -/
def readUri (angled : Bool) (cursor : Cursor) : Option (Bytes × Cursor) := do
  let (bytes, count) ← scanUri angled 0 cursor.rest
  return (bytes.takeWhile (· != 0), cursor.advance count)

/-- What stands between two exclamation marks, if the second one is there. -/
def handleName? (cursor : Cursor) : Option (List Char) :=
  let name := cursor.taken isNameChar
  if (cursor.rest.drop name.length).head? == some '!' then some name else none

/-- The handle of the names between two exclamation marks. -/
def handleOf (name : List Char) : String :=
  String.ofList ('!' :: name ++ ['!'])

/-- Reads a tag behind its exclamation mark. A tag of nothing else is one without a handle. -/
def scanTag (inFlow : Bool) (cursor : Cursor) : Option (WrittenTag × Cursor) := do
  let (tag, next) ←
    -- the whole tag between angle brackets, behind a handle, or behind the mark alone
    if cursor.rest.head? == some '<' then do
      let start := cursor.advance 1
      let (uri, next) ← readUri true start
      if next.rest.head? == some '>' && next.length < start.length then
        some ({ handle := "", suffix := uri }, next.advance 1)
      else none
    else match handleName? cursor with
    | some name => do
      let start := cursor.advance (name.length + 1)
      let (suffix, next) ← readUri false start
      if next.length < start.length then some ({ handle := handleOf name, suffix }, next)
      else none
    | none => do
      let (suffix, next) ← readUri false cursor
      if suffix.isEmpty then some ({ handle := "", suffix := Bytes.ofString "!" }, next)
      else some ({ handle := "!", suffix }, next)
  if endsWord next.rest || (inFlow && next.rest.head? == some ',') then some (tag, next) else none

/-! ## Directives -/

/-- What a directive fixes. -/
inductive Directive where
  | version (major minor : Nat)
  | tag (handle : String) (uri : Bytes)
  deriving DecidableEq, Repr

/-- Reads a number of at most nine digits. -/
def scanNumber (cursor : Cursor) : Option (Nat × Cursor) :=
  let digits := cursor.taken Char.isDigit
  if 9 < digits.length then none
  else
    (Text.number? 10 digits).map (·, cursor.advance digits.length)

/-- Reads a directive behind its percent sign, up to the start of the next line. -/
def scanDirective (cursor : Cursor) : Option (Directive × Cursor) := do
  let name := cursor.taken isNameChar
  let named := cursor.skipWhile isNameChar
  if !endsWord named.rest then none
  let value := named.skipWhile isSpace
  let (directive, next) ←
    if name == "YAML".toList then do
      let (major, dot) ← scanNumber value
      if dot.rest.head? ≠ some '.' then none
      let (minor, next) ← scanNumber (dot.advance 1)
      some (.version major minor, next)
    else if name == "TAG".toList then do
      if value.rest.head? ≠ some '!' then none
      let start := value.advance 1
      let (handle, next) := match handleName? start with
        | some name => (handleOf name, start.advance (name.length + 1))
        | none => ("!", start)
      if !next.rest.head?.any isSpace then none
      let prefixStart := next.skipWhile isSpace
      let (uri, next) ← readUri true prefixStart
      if next.length < prefixStart.length && endsWord next.rest then some (.tag handle uri, next)
      else none
    else none
  -- nothing but a comment may follow on the line
  let lineEnd := next.skipComment isSpace
  match lineEnd.passBreak? with
  | some (_, nextLine) => some (directive, nextLine)
  | none => if lineEnd.rest.isEmpty then some (directive, lineEnd) else none

end Locator.Yaml
