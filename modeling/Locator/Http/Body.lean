import Locator.Http.Head
import Locator.Text.Number
import Locator.Text.Split

/-!
# Bodies of replies

A body ends where the head says: after a number of bytes, with an empty chunk, or where the server
closes the connection. `Framing.ofHead?` finds out which, and `Body.receive` reads the body.
-/

namespace Locator.Http

/-! ## Where bodies end -/

inductive Framing where
  | sized (length : Nat)
  | chunked
  | untilClose
  deriving DecidableEq, Repr

namespace Framing

def textOf (bytes : Bytes) : List Char := bytes.map Head.charOfByte

/-- The items of a list with commas, without the blanks around them. -/
def listItems (bytes : Bytes) : List (List Char) :=
  (Text.split ',' (textOf bytes)).map fun item =>
    let isBlank (c : Char) : Bool := c == ' ' || c == '\t'
    ((item.dropWhile isBlank).reverse.dropWhile isBlank).reverse

/-- No body is longer. -/
def maxLength : Nat := UInt64.size - 3

/-- The length that all values agree on. -/
def length? (values : List Bytes) : Option Nat := do
  match ← (values.flatMap listItems).mapM (Text.number? 10) with
  | [] => none
  | length :: others => if others.all (· = length) && length ≤ maxLength then some length else none

/-- The last coding of the last header for codings is the chunked one. -/
def isChunked (values : List Bytes) : Bool :=
  ((values.getLast?.map listItems).bind (·.getLast?)).any fun coding =>
    coding.map Char.toLower == "chunked".toList

/-- How the body ends, unless the head contradicts itself. -/
def ofHead? (head : Head) : Option Framing :=
  let codings := head.values "transfer-encoding"
  let lengths := head.values "content-length"
  if head.status < 200 || head.status = 204 || head.status = 304 then some (.sized 0)
  -- a coding counts before any length, but version 1.0 knows none
  else if !codings.isEmpty then
    if head.isOld then none else some (if isChunked codings then .chunked else .untilClose)
  else if lengths.isEmpty then some .untilClose
  else (length? lengths).map .sized

end Framing

/-! ## Bodies -/

namespace Chunk

open Scanner

def isSizeEnd (b : UInt8) : Bool := Head.isBlankByte b || b == 59 || b == 13

def isSizeDigit (b : UInt8) : Bool := (Text.digitValue? (Head.charOfByte b)).isSome

/-- Passes what follows a size behind a semicolon, up to the end of the line. -/
def extension (first : UInt8) : Scanner Bytes :=
  if first == 59 then upTo 13 (· != lineFeed) else pure []

/-- Passes the line behind the digits of a size. -/
def sizeLineEnd : Scanner Unit := do
  let _ ← before (!Head.isBlankByte ·) fun _ => true
  let first ← byte fun b => b == 13 || b == 59
  let _ ← extension first
  exactly 10

/-- Reads the line in front of a chunk: its size, and extensions that do not matter. -/
def sizeLine : Scanner Nat := do
  let digits ← before isSizeEnd isSizeDigit
  match (Text.number? 16 (Framing.textOf digits)).filter (· < UInt64.size) with
  | none => fail
  | some size =>
    sizeLineEnd
    return size

theorem shrinks_extension (first : UInt8) : Shrinks (extension first) := by
  unfold extension
  split
  · exact (consumes_upTo _ _).shrinks
  · exact shrinks_pure _

theorem shrinks_sizeLineEnd : Shrinks sizeLineEnd :=
  (shrinks_before _ _).bind fun _ => (consumes_byte _).shrinks.bind fun _ =>
    (shrinks_extension _).bind fun _ => (consumes_exactly _).shrinks

theorem shrinks_sizeLine : Shrinks sizeLine := by
  refine (shrinks_before _ _).bind fun digits => ?_
  split
  · exact shrinks_fail
  · exact shrinks_sizeLineEnd.bind fun _ => shrinks_pure _

/-- Takes the bytes of a chunk and the end of its last line. -/
def data (size : Nat) : Scanner Bytes := do
  let data ← take size
  exactly 13
  exactly 10
  return data

theorem consumes_data (size : Nat) : Consumes (data size) :=
  (shrinks_take _).bind_consumes fun _ => (consumes_exactly _).bind fun _ =>
    (consumes_exactly _).shrinks.bind fun _ => shrinks_pure _

/-- Takes a line and its end. -/
def wholeLine : Scanner Bytes := do
  let text ← upTo 13 fun _ => true
  exactly 10
  return text ++ [13, 10]

theorem consumes_wholeLine : Consumes wholeLine :=
  (consumes_upTo _ _).bind fun _ => (consumes_exactly _).shrinks.bind fun _ => shrinks_pure _

/-- Takes the lines behind the last chunk, up to an empty one. -/
def trailerLines (bytes : Bytes) : Scan (List Bytes) :=
  match bytes with
  | [] | [13] => .more
  | 13 :: 10 :: rest => .done [] rest
  | 13 :: _ => .bad
  | b :: rest =>
    match _hline : wholeLine (b :: rest) with
    | .more => .more
    | .bad => .bad
    | .done line next =>
      match trailerLines next with
      | .done lines last => .done (line :: lines) last
      | .more => .more
      | .bad => .bad
termination_by bytes.length
decreasing_by exact consumes_wholeLine _hline

/-- How many bytes the lines behind the last chunk may have, less one. -/
def trailerLimit : Nat := 16384

/-- The lines are headers, at most one a line. -/
def areHeaders (lines : List Bytes) : Bool :=
  let bytes := lines.flatten ++ [13, 10]
  lines.length ≤ Head.maxHeaders && bytes.length < trailerLimit &&
    match Head.headerLines lines.length bytes with
    | .done _ _ => true
    | _ => false

/-- Passes the headers behind the last chunk. -/
def trailer : Scanner Unit := do
  let lines ← (trailerLines : Scanner (List Bytes))
  require (areHeaders lines)

/-- Reads chunks up to the empty one. -/
def body (bytes : Bytes) : Scan Bytes :=
  match _hsize : sizeLine bytes with
  | .more => .more
  | .bad => .bad
  | .done 0 rest =>
    match trailer rest with
    | .done () rest => .done [] rest
    | .more => .more
    | .bad => .bad
  | .done (size + 1) rest =>
    match _hdata : data (size + 1) rest with
    | .more => .more
    | .bad => .bad
    | .done bytes next =>
      match body next with
      | .done more last => .done (bytes ++ more) last
      | .more => .more
      | .bad => .bad
termination_by bytes.length
decreasing_by exact Nat.lt_of_lt_of_le (consumes_data _ _hdata) (shrinks_sizeLine _hsize)

end Chunk

/-- What has come of a body. -/
inductive Body where
  | whole (bytes : Bytes)
  /-- It cannot be completed. -/
  | broken
  /-- It is still to be completed, and the connection stays open. -/
  | waiting
  deriving DecidableEq, Repr

/-- What came over a connection: the bytes, and whether it stays open behind them. -/
structure Arrived where
  bytes : Bytes
  stalls : Bool
  deriving DecidableEq, Repr

/-- Reads a body. -/
def Body.receive (framing : Framing) (arrived : Arrived) : Body :=
  let incomplete := if arrived.stalls then Body.waiting else Body.broken
  match framing with
  | .untilClose => if arrived.stalls then .waiting else .whole arrived.bytes
  | .sized length =>
    if arrived.bytes.length < length then incomplete else .whole (arrived.bytes.take length)
  | .chunked =>
    match Chunk.body arrived.bytes with
    | .done bytes _ => .whole bytes
    | .more => incomplete
    | .bad => .broken

end Locator.Http
