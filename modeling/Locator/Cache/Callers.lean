import Locator.Cache.Basic

/-!
# Callers of one cache

Any number of callers use one cache at the same time. A caller moves from section to section
(`Call.advance`); between two sections of one caller the others may move, and time may pass. A
caller that finds the slot it needs locked stays where it is until the lock is free.

`Hall.run` lets the callers take their turns in a given order, and `Hall.runFair` round after round.
-/

namespace Locator.Cache

variable {α ε : Type}

/-- What a caller wants. -/
inductive Call (α ε : Type) where
  /-- The value of a key, from a fetch with the given outcome if there is none. -/
  | fetch (key : String) (outcome : Outcome α ε)
  | get (key : String)
  | size
  | purge
  deriving DecidableEq, Repr

/-- What a caller has in the end. -/
inductive Reply (α ε : Type) where
  | hit (value : α)
  | fetched (outcome : Outcome α ε)
  | got (value : Option α)
  | counted (count : Nat)
  | purged (count : Nat)
  deriving DecidableEq, Repr

/-- How far a caller has come. -/
inductive Phase (α ε : Type) where
  | outside
  /-- Holds the slot and has not looked into it yet. -/
  | holding (id : SlotId)
  /-- Fetches, with the slot locked. -/
  | fetching (id : SlotId)
  /-- Failed and unlocked the slot, and has not tried to forget it yet. -/
  | failed (id : SlotId)
  /-- Counts values: the slots held, those of them to look into, and the values seen so far. -/
  | counting (held rest : List SlotId) (count : Nat)
  /-- Read the clock for a purge and has not begun it yet. -/
  | purging (since : Nat)
  /-- Knows its reply and lets the slots go that it still holds, one after the other. -/
  | leaving (held : List SlotId) (reply : Reply α ε)
  | finished (reply : Reply α ε)
  deriving DecidableEq, Repr

structure Caller (α ε : Type) where
  call : Call α ε
  phase : Phase α ε := .outside
  deriving DecidableEq, Repr

/-- The next section of a call: the phase and the cache after it; `none` when it waits for a lock
or has finished. -/
def Call.advance (cache : Cache α) (now : Nat) :
    Call α ε → Phase α ε → Option (Phase α ε × Cache α)
  | .fetch key _, .outside =>
    let (id, held) := cache.take key
    some (.holding id, held)
  | .fetch _ _, .holding id =>
    if (cache.slot id).locked then none
    else
      match cache.freshIn? id now with
      | some value => some (.leaving [id] (.hit value), cache)
      | none => some (.fetching id, cache.lock id)
  | .fetch _ outcome, .fetching id =>
    let recorded := cache.record id outcome now
    match outcome with
    | .error _ => some (.failed id, recorded)
    | _ => some (.leaving [id] (.fetched outcome), recorded)
  | .fetch key outcome, .failed id =>
    some (.leaving [id] (.fetched outcome), cache.release key id)
  | .get key, .outside =>
    match cache.slotOf? key with
    | none => some (.finished (.got none), cache)
    | some id => some (.holding id, cache.hold id)
  | .get _, .holding id =>
    if (cache.slot id).locked then none
    else some (.leaving [id] (.got (cache.freshIn? id now)), cache)
  | .size, .outside =>
    let ids := cache.index.map (·.2)
    some (.counting ids ids 0, ids.foldl hold cache)
  | .size, .counting held [] count => some (.leaving held (.counted count), cache)
  | .size, .counting held (id :: rest) count =>
    if (cache.slot id).locked then none
    else
      some (.counting held rest (count + if (cache.slot id).entry.isSome then 1 else 0), cache)
  | .purge, .outside => some (.purging now, cache)
  | .purge, .purging since =>
    let (count, purged) := cache.purge since
    some (.finished (.purged count), purged)
  | _, .leaving [] reply => some (.finished reply, cache)
  | _, .leaving (id :: held) reply => some (.leaving held reply, cache.drop id)
  | _, _ => none

/-- A cache with its callers. -/
structure Hall (α ε : Type) where
  cache : Cache α
  callers : List (Caller α ε)
  now : Nat := 0

/-- What can happen next in a hall. -/
inductive Turn where
  /-- The caller at a position goes through its next section. -/
  | caller (position : Nat)
  /-- Time passes, in nanoseconds. -/
  | wait (nanos : Nat)
  deriving DecidableEq, Repr

namespace Hall

/-- An empty cache, and callers who have not come in yet. -/
def opening (ttl : Duration) (calls : List (Call α ε)) (now : Nat) : Hall α ε where
  cache := { ttl }
  callers := calls.map fun call => { call }
  now

/-- The caller at a position moves on, if it can. -/
def move (hall : Hall α ε) (position : Nat) : Hall α ε :=
  match hall.callers[position]? with
  | none => hall
  | some caller =>
    match caller.call.advance hall.cache hall.now caller.phase with
    | none => hall
    | some (phase, cache) =>
      { hall with cache, callers := hall.callers.set position { caller with phase } }

def turn (hall : Hall α ε) : Turn → Hall α ε
  | .caller position => hall.move position
  | .wait nanos => { hall with now := hall.now + nanos }

/-- The turns are taken in the given order. -/
def run (hall : Hall α ε) (schedule : List Turn) : Hall α ε :=
  schedule.foldl turn hall

/-- How many rounds are enough for callers that only fetch: a fetch has six phases to leave, and
in every round somebody moves. -/
def rounds (hall : Hall α ε) : Nat :=
  6 * hall.callers.length

/-- Round after round, every caller in turn. -/
def runFair (hall : Hall α ε) : Hall α ε :=
  let round := (List.range hall.callers.length).map Turn.caller
  hall.run (List.replicate hall.rounds round).flatten

/-- The replies of the callers that have finished. -/
def replies (hall : Hall α ε) : List (Option (Reply α ε)) :=
  hall.callers.map fun caller =>
    match caller.phase with
    | .finished reply => some reply
    | _ => none

end Hall

end Locator.Cache
