import Locator.Log
import Locator.Stream.Handle

/-!
# Copying

`copy` moves everything from a source to a sink, in pieces, and closes both on every path. It keeps
the list of the calls that it made.
-/

namespace Locator.Stream

/-- The room for one piece. -/
def pieceSize : Nat := 4096

/-- Reads and writes until the source ends or a call fails; gives the number of bytes moved. The
number has no bound here; the program has 64 bits for it, which no source on disk or in memory
fills. -/
def transfer (source : Source) (sink : Sink) (total : Nat) :
    Except IoError Nat × Sink × List Event :=
  match _h : source.read pieceSize with
  | (.ok [], _) => (.ok total, sink, [.read pieceSize (.ok 0)])
  | (.error cause, rest) =>
    let event := Event.read pieceSize (.error cause)
    if cause.kind = .interrupted then
      let (result, sink, events) := transfer rest sink total
      (result, sink, event :: events)
    else (.error cause, sink, [event])
  | (.ok (byte :: bytes), rest) =>
    let piece := byte :: bytes
    let event := Event.read pieceSize (.ok piece.length)
    match sink.writeAll piece with
    | (.error cause, sink, writes) => (.error cause, sink, event :: writes)
    | (.ok (), sink, writes) =>
      let (result, sink, events) := transfer rest sink (total + piece.length)
      (result, sink, event :: (writes ++ events))
termination_by source.pending
decreasing_by
  all_goals
    have hne : source ≠ [] :=
      Source.ne_nil_of_read pieceSize (congrArg Prod.fst _h) (by simp)
    have hlt := Source.pending_read_lt hne pieceSize (by decide)
    rw [_h] at hlt
    exact hlt

/-- What a copy leaves behind. -/
structure Copied where
  /-- The number of bytes moved, or the first failure. -/
  result : Except IoError Nat
  sink : Sink
  events : List Event
  warnings : List Log.Record

/-- Moves everything from the source to the sink. The source is closed first, then the sink is
flushed and closed; a flush that fails is worth a warning and does not change the result. -/
def copy (source : Source) (sink : Sink) : Copied :=
  let (result, sink, events) := transfer source sink 0
  let (flushed, sink) := sink.flush
  { result
    sink
    events := events ++ [.closeSource, .flush flushed, .closeSink]
    warnings := match flushed with
      | .error cause => [.warn ("Failed to close output after copying: " ++ cause.text)]
      | .ok () => [] }

end Locator.Stream
