import Locator.Bytes
import Locator.Error

/-!
# Streams

A source hands out what arrives, a sink takes what it is offered, and both may fail at any point.
`Source.read` and `Sink.write` are single calls; `Sink.writeAll` repeats calls until everything is
taken.
-/

namespace Locator.Stream

/-! ## Sources -/

/-- What a read finds waiting. -/
inductive Arrival where
  | data (bytes : Bytes)
  | failure (cause : IoError)
  deriving DecidableEq, Repr

/-- What is still to arrive; after that, every read finds the end. -/
abbrev Source := List Arrival

namespace Source

/-- A source that holds a content. -/
def ofBytes (bytes : Bytes) : Source := [.data bytes]

/-- One read with room for `room` bytes. Data that does not fit stays for the next read. Reading
nothing means that the source has ended. -/
def read (room : Nat) : Source → Except IoError Bytes × Source
  | [] => (.ok [], [])
  | .failure cause :: rest => (.error cause, rest)
  | .data bytes :: rest =>
    if bytes.length ≤ room then (.ok bytes, rest)
    else (.ok (bytes.take room), .data (bytes.drop room) :: rest)

/-- The bytes and failures to come, counted so that every read with room leaves fewer. -/
def pending : Source → Nat
  | [] => 0
  | .failure _ :: rest => 1 + pending rest
  | .data bytes :: rest => bytes.length + 1 + pending rest

theorem pending_read_lt {source : Source} (h : source ≠ []) (room : Nat) (hr : 0 < room) :
    (read room source).2.pending < source.pending := by
  match source with
  | [] => exact absurd rfl h
  | .failure _ :: rest => simp only [read, pending]; omega
  | .data bytes :: rest =>
    simp only [read]
    split
    · simp only [pending]; omega
    · simp only [pending, List.length_drop]; omega

theorem ne_nil_of_read {source : Source} (room : Nat) {result : Except IoError Bytes}
    (h : (read room source).1 = result) (hr : result ≠ .ok []) : source ≠ [] := by
  rintro rfl
  exact hr h.symm

end Source

/-! ## Sinks -/

/-- How a sink answers one write. -/
inductive Reception where
  /-- Takes as many bytes as the limit allows. -/
  | accept (limit : Nat)
  | refuse (cause : IoError)
  deriving DecidableEq, Repr

/-- A sink with its answers to the writes to come; after them it takes everything. -/
structure Sink where
  /-- The pieces taken so far, the newest first. -/
  taken : List Bytes := []
  receptions : List Reception := []
  flushFailure : Option IoError := none
  deriving DecidableEq, Repr

/-- A call on a source or a sink, with its result. -/
inductive Event where
  | read (room : Nat) (result : Except IoError Nat)
  | write (offered : Nat) (result : Except IoError Nat)
  | flush (result : Except IoError Unit)
  | closeSource
  | closeSink

namespace Sink

/-- Everything taken so far, in order. -/
def written (sink : Sink) : Bytes :=
  sink.taken.reverse.flatten

def keep (sink : Sink) (bytes : Bytes) : Sink :=
  { sink with taken := bytes :: sink.taken }

/-- One write; gives how many bytes were taken. -/
def write (sink : Sink) (bytes : Bytes) : Except IoError Nat × Sink :=
  match sink.receptions with
  | [] => (.ok bytes.length, sink.keep bytes)
  | .accept limit :: rest =>
    (.ok (min limit bytes.length), { sink.keep (bytes.take limit) with receptions := rest })
  | .refuse cause :: rest => (.error cause, { sink with receptions := rest })

/-- Writes until every byte is taken. An interruption is no failure; taking nothing is one. -/
def writeAll (sink : Sink) (bytes : Bytes) : Except IoError Unit × Sink × List Event :=
  if bytes.isEmpty then (.ok (), sink, [])
  else
    match _h : sink.receptions with
    | [] => (.ok (), sink.keep bytes, [.write bytes.length (.ok bytes.length)])
    | .refuse cause :: rest =>
      let sink := { sink with receptions := rest }
      let event := Event.write bytes.length (.error cause)
      if cause.kind = .interrupted then
        let (result, sink, events) := writeAll sink bytes
        (result, sink, event :: events)
      else (.error cause, sink, [event])
    | .accept limit :: rest =>
      let taken := min limit bytes.length
      let sink := { sink.keep (bytes.take limit) with receptions := rest }
      let event := Event.write bytes.length (.ok taken)
      if taken = 0 then (.error .nothingWritten, sink, [event])
      else
        let (result, sink, events) := writeAll sink (bytes.drop limit)
        (result, sink, event :: events)
termination_by sink.receptions.length
decreasing_by all_goals simp [_h]

/-- Asks the sink to pass on what it has taken; only the first time can fail. -/
def flush (sink : Sink) : Except IoError Unit × Sink :=
  match sink.flushFailure with
  | some cause => (.error cause, { sink with flushFailure := none })
  | none => (.ok (), sink)

end Sink

end Locator.Stream
