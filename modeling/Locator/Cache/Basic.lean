import Locator.Duration

/-!
# Content cache

Values by key, each good for a fixed time after it was stored. Every key has a *slot* of its own,
which a caller holds while it looks the value up and keeps locked while it fetches a new one. A slot
lives as long as somebody holds it, also when the key no longer leads to it; what is stored in such
a slot is not seen again.

The functions of this file are the sections of a call that nothing can interrupt:

* `take` finds or makes the slot of a key and holds it,
* `check` locks it, unless its value is still fresh,
* `record` stores the outcome of a fetch and unlocks,
* `release` forgets the slot after a failure when nobody else holds it,
* `drop` lets it go.

`enter` and `settle` put them together for a caller that is alone.
-/

namespace Locator

/-- A value and the moment it was stored at, in nanoseconds. -/
structure Entry (α : Type) where
  value : α
  storedAt : Nat
  deriving DecidableEq, Repr

/-- Not older than the time to live. A moment before the storing counts as its very moment. -/
def Entry.isFresh (entry : Entry α) (ttl : Duration) (now : Nat) : Bool :=
  now - entry.storedAt ≤ ttl.toNanos

/-- The place for the value of one key. -/
structure Slot (α : Type) where
  entry : Option (Entry α) := none
  /-- How many callers hold the slot, besides the cache itself. -/
  holders : Nat := 0
  /-- A caller has it locked while it fetches. -/
  locked : Bool := false
  deriving DecidableEq, Repr

/-- Slots are never moved, so a position names one for good. -/
abbrev SlotId := Nat

/-- The slots made so far, and which of them belongs to which key. -/
structure Cache (α : Type) where
  ttl : Duration
  index : List (String × SlotId) := []
  slots : List (Slot α) := []
  deriving DecidableEq

/-- How a fetch ends: with a value, with an error, or not at all because it was torn down. -/
inductive Outcome (α ε : Type) where
  | value (value : α)
  | error (error : ε)
  | aborted
  deriving DecidableEq, Repr

namespace Cache

variable {α ε : Type}

/-! ## Looking -/

def slotOf? (cache : Cache α) (key : String) : Option SlotId :=
  cache.index.lookup key

def slot (cache : Cache α) (id : SlotId) : Slot α :=
  cache.slots.getD id {}

/-- The value in a slot, if it is still fresh. -/
def freshIn? (cache : Cache α) (id : SlotId) (now : Nat) : Option α :=
  ((cache.slot id).entry.filter (·.isFresh cache.ttl now)).map (·.value)

/-- How many keys have a value, fresh or not. -/
def size (cache : Cache α) : Nat :=
  cache.index.countP fun (_, id) => (cache.slot id).entry.isSome

def isEmpty (cache : Cache α) : Bool :=
  cache.size == 0

/-- Some key leads to a locked slot. -/
def anyLocked (cache : Cache α) : Bool :=
  cache.index.any fun (_, id) => (cache.slot id).locked

/-! ## Sections -/

def modify (cache : Cache α) (id : SlotId) (change : Slot α → Slot α) : Cache α :=
  { cache with slots := cache.slots.modify id change }

def hold (cache : Cache α) (id : SlotId) : Cache α :=
  cache.modify id fun slot => { slot with holders := slot.holders + 1 }

def drop (cache : Cache α) (id : SlotId) : Cache α :=
  cache.modify id fun slot => { slot with holders := slot.holders - 1 }

/-- Holds the slot of a key, after making one if the key has none. -/
def take (cache : Cache α) (key : String) : SlotId × Cache α :=
  match cache.slotOf? key with
  | some id => (id, cache.hold id)
  | none =>
    let id := cache.slots.length
    (id, { cache with
      index := (key, id) :: cache.index
      slots := cache.slots ++ [{ holders := 1 }] })

def lock (cache : Cache α) (id : SlotId) : Cache α :=
  cache.modify id fun slot => { slot with locked := true }

/-- Ends the fetch into a locked slot: a value is stored, an error leaves nothing, and a fetch that
was torn down leaves what was there. -/
def record (cache : Cache α) (id : SlotId) (outcome : Outcome α ε) (now : Nat) : Cache α :=
  cache.modify id fun slot =>
    match outcome with
    | .value value => { slot with entry := some ⟨value, now⟩, locked := false }
    | .error _ => { slot with entry := none, locked := false }
    | .aborted => { slot with locked := false }

/-- Forgets the slot when the key still leads to it and only the caller holds it. -/
def release (cache : Cache α) (key : String) (id : SlotId) : Cache α :=
  if cache.slotOf? key = some id ∧ (cache.slot id).holders = 1 then
    { cache with index := cache.index.filter (·.1 ≠ key) }
  else cache

/-! ## Operations of a caller that is alone -/

/-- What a caller meets when it asks for the value of a key. -/
inductive Entrance (α : Type) where
  /-- A fresh value. -/
  | fresh (value : α) (cache : Cache α)
  /-- No fresh value; the slot is held and locked, and the caller has to fetch. -/
  | vacant (id : SlotId) (cache : Cache α)
  /-- The slot is locked already, so the caller would wait for itself. -/
  | blocked

def enter (cache : Cache α) (key : String) (now : Nat) : Entrance α :=
  let (id, held) := cache.take key
  if (held.slot id).locked then .blocked
  else
    match held.freshIn? id now with
    | some value => .fresh value (held.drop id)
    | none => .vacant id (held.lock id)

/-- Ends the fetch of a caller that found its slot vacant. -/
def settle (cache : Cache α) (key : String) (id : SlotId) (outcome : Outcome α ε) (now : Nat) :
    Cache α :=
  let recorded := cache.record id outcome now
  match outcome with
  | .error _ => (recorded.release key id).drop id
  | _ => recorded.drop id

/-- The fresh value of a key. -/
def get? (cache : Cache α) (key : String) (now : Nat) : Option α :=
  (cache.slotOf? key).bind fun id => cache.freshIn? id now

/-- Forgets a key; says whether it had a value. -/
def invalidate (cache : Cache α) (key : String) : Bool × Cache α :=
  match cache.slotOf? key with
  | none => (false, cache)
  | some id =>
    ((cache.slot id).entry.isSome, { cache with index := cache.index.filter (·.1 ≠ key) })

/-- Forgets every key. -/
def clear (cache : Cache α) : Cache α :=
  { cache with index := [] }

/-- A purge leaves a slot alone when it is locked or its value is fresh. -/
def keepsInPurge (cache : Cache α) (now : Nat) (id : SlotId) : Bool :=
  (cache.slot id).locked || (cache.freshIn? id now).isSome

/-- Forgets the keys without a fresh value, except those that are being fetched; says how many. -/
def purge (cache : Cache α) (now : Nat) : Nat × Cache α :=
  let kept := cache.index.filter fun (_, id) => cache.keepsInPurge now id
  (cache.index.length - kept.length, { cache with index := kept })

end Cache

end Locator
