import Locator.Yaml.Property
import Locator.Yaml.Scalar

/-!
# Tokens of YAML text

The text as a list of tokens, with a token where indentation opens or closes a block collection.

What makes a node a key is only seen at the colon behind it, so `Scanner` marks every place where
one may start. When the colon comes, the marks become the tokens that belong there; marks that are
left over at the end are nothing.
-/

namespace Locator.Yaml

inductive Token where
  | directive (directive : Directive)
  | documentStart
  | documentEnd
  | blockSequenceStart
  | blockMappingStart
  | blockEnd
  | flowSequenceStart
  | flowSequenceEnd
  | flowMappingStart
  | flowMappingEnd
  | blockEntry
  | flowEntry
  | key
  | value
  | anchor (name : String)
  | reference (name : String)
  | tag (tag : WrittenTag)
  | scalar (text : String) (style : Style)
  deriving DecidableEq, Repr

/-- A token, or the place in front of a node that may turn out to be a key. A place is told from
others by the index of its first character. -/
inductive Item where
  | token (token : Token)
  | mark (index : Nat)
  deriving DecidableEq, Repr

/-- Puts tokens in the place of a mark. The items are those read so far, the latest first. -/
def Item.confirm (index : Nat) (tokens : List Token) : List Item → List Item
  | [] => []
  | .mark other :: earlier =>
    if other = index then tokens.reverse.map .token ++ earlier
    else .mark other :: confirm index tokens earlier
  | item :: earlier => item :: confirm index tokens earlier

/-- Where a node starts that may turn out to be a key. -/
structure PossibleKey where
  /-- The node starts where the keys of the mapping around it do, so it has to be one. -/
  required : Bool
  index : Nat
  line : Nat
  column : Nat

/-- How many characters a key and its colon may be apart. -/
def keyLimit : Nat := 1024

/-- A key is on the line of its colon and not too far away. -/
def PossibleKey.isFresh (key : PossibleKey) (cursor : Cursor) : Bool :=
  key.line == cursor.line && cursor.index ≤ key.index + keyLimit

/-- The state of the conversion of text to tokens. -/
structure Scanner where
  cursor : Cursor
  /-- What has been read, the latest first. -/
  items : List Item := []
  /-- The columns of the block collections that are open, the innermost first. -/
  columns : List Nat := []
  keyAllowed : Bool := true
  key : Option PossibleKey := none
  /-- The possible keys outside each bracket that is open, the innermost first. -/
  outerKeys : List (Option PossibleKey) := []

namespace Scanner

def inFlow (scanner : Scanner) : Bool := !scanner.outerKeys.isEmpty

/-- The columns that a node needs in front of it to be inside the innermost block collection. -/
def margin (scanner : Scanner) : Nat := (scanner.columns.head?.map (· + 1)).getD 0

def emit (scanner : Scanner) (token : Token) : Scanner :=
  { scanner with items := .token token :: scanner.items }

/-! ## Indentation -/

/-- Opens a block collection at a column unless one is open there, and puts the start of it in front
of `tokens`. -/
def roll (scanner : Scanner) (column : Nat) (start : Token) (tokens : List Token) :
    Scanner × List Token :=
  if !scanner.inFlow && scanner.margin ≤ column then
    ({ scanner with columns := column :: scanner.columns }, start :: tokens)
  else (scanner, tokens)

/-- Opens a block collection that starts at the cursor. -/
def rollHere (scanner : Scanner) (start : Token) : Scanner :=
  let (scanner, tokens) := scanner.roll scanner.cursor.column start []
  tokens.foldl emit scanner

/-- Closes the block collections that `isClosed` says of their column. -/
def unrollWhile (scanner : Scanner) (isClosed : Nat → Bool) : Scanner :=
  if scanner.inFlow then scanner
  else
    let closed := scanner.columns.takeWhile isClosed
    { scanner with
      columns := scanner.columns.dropWhile isClosed
      items := closed.map (fun _ => .token .blockEnd) ++ scanner.items }

/-! ## Possible keys -/

/-- Gives up the possible key, unless it had to be one. -/
def dropKey (scanner : Scanner) : Option Scanner :=
  if scanner.key.any (·.required) then none else some { scanner with key := none }

/-- Notes that a node starts at the cursor. -/
def startNode (scanner : Scanner) : Option Scanner :=
  if scanner.keyAllowed then do
    let scanner ← scanner.dropKey
    let cursor := scanner.cursor
    let key : PossibleKey := {
      required := !scanner.inFlow && scanner.columns.head? == some cursor.column
      index := cursor.index
      line := cursor.line
      column := cursor.column }
    return { scanner with items := .mark key.index :: scanner.items, key := some key }
  else some scanner

/-- Gives up a key that is too far away, unless it had to be one. -/
def keepFresh (cursor : Cursor) : Option PossibleKey → Option (Option PossibleKey)
  | none => some none
  | some key =>
    if key.isFresh cursor then some (some key)
    else if key.required then none
    else some none

def dropStaleKeys (scanner : Scanner) : Option Scanner := do
  return { scanner with
    key := ← keepFresh scanner.cursor scanner.key
    outerKeys := ← scanner.outerKeys.mapM (keepFresh scanner.cursor) }

/-! ## Tokens -/

/-- Passes what is in front of the next token. Tabs are not passed where they could be mistaken for
indentation. A new line outside brackets may start with a key. -/
def skipToToken (scanner : Scanner) : Scanner :=
  let isBlank (c : Char) : Bool :=
    c == ' ' || ((scanner.inFlow || !scanner.keyAllowed) && c == '\t')
  let lineEnd := scanner.cursor.skipOrderMark.skipComment isBlank
  match _hbreak : lineEnd.passBreak? with
  | none => { scanner with cursor := lineEnd }
  | some (_, next) =>
    skipToToken { scanner with cursor := next, keyAllowed := scanner.keyAllowed || !scanner.inFlow }
termination_by scanner.cursor.length
decreasing_by
  calc
    next.length < lineEnd.length := Cursor.length_of_passBreak? _hbreak
    _ ≤ scanner.cursor.skipOrderMark.length := Cursor.length_skipComment_le ..
    _ ≤ scanner.cursor.length := Cursor.length_skipOrderMark_le _

/-- Takes a token of `count` characters. -/
def take (scanner : Scanner) (count : Nat) (token : Token) : Scanner :=
  { scanner.emit token with cursor := scanner.cursor.advance count }

/-- Ends everything that is open in front of a directive or a separator of documents. -/
def endDocument (scanner : Scanner) : Option Scanner := do
  return { ← (scanner.unrollWhile fun _ => true).dropKey with keyAllowed := false }

def openBracket (scanner : Scanner) (token : Token) : Option Scanner := do
  let scanner ← scanner.startNode
  return {
    scanner.take 1 token with
    keyAllowed := true
    key := none
    outerKeys := scanner.key :: scanner.outerKeys }

def closeBracket (scanner : Scanner) (token : Token) : Option Scanner := do
  let scanner ← scanner.dropKey
  return {
    scanner.take 1 token with
    keyAllowed := false
    key := scanner.outerKeys.head?.join
    outerKeys := scanner.outerKeys.tail }

/-- Takes an indicator at the start of an entry of a block collection, or of one in brackets. -/
def takeEntry (scanner : Scanner) (start token : Token) (keyAllowed : Bool) : Option Scanner := do
  if !scanner.inFlow && !scanner.keyAllowed then none
  let scanner ← (scanner.rollHere start).dropKey
  return { scanner.take 1 token with keyAllowed }

/-- Takes a colon: the node in front of it is a key if it may be one. -/
def takeColon (scanner : Scanner) : Option Scanner :=
  match scanner.key with
  | some key =>
    -- the node is read already, so its mark becomes what stands in front of a key
    let (scanner, tokens) := scanner.roll key.column .blockMappingStart [.key]
    let items := Item.confirm key.index tokens scanner.items
    some { { scanner with items }.take 1 .value with keyAllowed := false, key := none }
  | none => scanner.takeEntry .blockMappingStart .value (!scanner.inFlow)

/-- Takes a token that a node consists of. -/
def takeNode (scanner : Scanner) (scan : Scanner → Option (Token × Cursor)) : Option Scanner := do
  let scanner ← scanner.startNode
  let (token, cursor) ← scan scanner
  return { scanner.emit token with cursor, keyAllowed := false }

def takeQuoted (scanner : Scanner) (single : Bool) : Option Scanner :=
  scanner.takeNode fun scanner => do
    let (text, cursor) ← scanQuoted single (scanner.cursor.advance 1)
    let style := if single then .singleQuoted else .doubleQuoted
    return (.scalar (String.ofList text) style, cursor)

/-- Takes a plain scalar; when it ended on a new line, a key may follow. -/
def takePlain (scanner : Scanner) : Option Scanner := do
  let scanner ← scanner.startNode
  let scalar ← scanPlain scanner.inFlow scanner.margin [] (.within []) scanner.cursor
  return {
    scanner.emit (.scalar (String.ofList scalar.text) .plain) with
    cursor := scalar.cursor
    keyAllowed := scalar.onNewLine }

def takeBlock (scanner : Scanner) (folded : Bool) : Option Scanner := do
  let scanner ← scanner.dropKey
  let (text, cursor) ← scanBlock folded scanner.margin (scanner.cursor.advance 1)
  let style := if folded then .folded else .literal
  return { scanner.emit (.scalar (String.ofList text) style) with cursor, keyAllowed := true }

/-- A plain scalar can start with a character. -/
def startsPlain (scanner : Scanner) (c : Char) (rest : List Char) : Bool :=
  !("-?:,[]\x7b\x7d#&*!|>'\"%@\x60".toList.contains c || isSpace c) ||
    (c == '-' && !rest.head?.any isSpace) ||
    (!scanner.inFlow && (c == '?' || c == ':') && !endsWord rest)

/-- Takes the token at the cursor. -/
def takeToken (scanner : Scanner) (c : Char) (rest : List Char) : Option Scanner :=
  let behind := scanner.cursor.advance 1
  if scanner.cursor.column == 0 && c == '%' then do
    let scanner ← scanner.endDocument
    let (directive, cursor) ← scanDirective behind
    return { scanner.emit (.directive directive) with cursor }
  else if scanner.cursor.atDocumentSeparator then do
    let scanner ← scanner.endDocument
    return scanner.take 3 (if c == '-' then .documentStart else .documentEnd)
  else if c == '[' then scanner.openBracket .flowSequenceStart
  else if c == '\x7b' then scanner.openBracket .flowMappingStart
  else if c == ']' then scanner.closeBracket .flowSequenceEnd
  else if c == '\x7d' then scanner.closeBracket .flowMappingEnd
  else if c == ',' then do
    return { (← scanner.dropKey).take 1 .flowEntry with keyAllowed := true }
  -- in a block these three say something only where a word ends behind them
  else if c == '-' && endsWord rest then scanner.takeEntry .blockSequenceStart .blockEntry true
  else if c == '?' && (scanner.inFlow || endsWord rest) then
    scanner.takeEntry .blockMappingStart .key (!scanner.inFlow)
  else if c == ':' && (scanner.inFlow || endsWord rest) then scanner.takeColon
  else if c == '*' then scanner.takeNode fun _ => (scanName behind).map fun (name, next) =>
    (.reference name, next)
  else if c == '&' then scanner.takeNode fun _ => (scanName behind).map fun (name, next) =>
    (.anchor name, next)
  else if c == '!' then scanner.takeNode fun scanner =>
    (scanTag scanner.inFlow behind).map fun (tag, next) => (.tag tag, next)
  -- brackets hold no lines that are kept or folded
  else if c == '|' && !scanner.inFlow then scanner.takeBlock false
  else if c == '>' && !scanner.inFlow then scanner.takeBlock true
  else if c == '\'' then scanner.takeQuoted true
  else if c == '"' then scanner.takeQuoted false
  else if scanner.startsPlain c rest then scanner.takePlain
  else none

/-- The tokens read, in their order. -/
def tokens (scanner : Scanner) : List Token :=
  scanner.items.reverse.filterMap fun
    | .token token => some token
    | .mark _ => none

/-- Reads tokens up to the end of the text. Every token takes a character at least. -/
def run (scanner : Scanner) : Option (List Token) := do
  let ready ← scanner.skipToToken.dropStaleKeys
  let column := ready.cursor.column
  let ready := ready.unrollWhile (column < ·)
  match ready.cursor.rest with
  | [] => return (← ready.endDocument).tokens
  | c :: rest =>
    let next ← ready.takeToken c rest
    if _h : next.cursor.length < scanner.cursor.length then next.run else none
termination_by scanner.cursor.length

end Scanner

/-- The tokens of a text, unless it holds a character that no document can hold or is malformed. -/
def tokens? (text : String) : Option (List Token) :=
  let chars := text.toList
  if chars.all isAllowed then Scanner.run { cursor := { rest := chars } } else none

end Locator.Yaml
