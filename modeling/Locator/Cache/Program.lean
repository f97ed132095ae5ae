import Locator.Cache.Basic

/-!
# Programs over a cache

Operations on one cache, one after another, where a fetch may run further operations before it
ends. `Program.run` gives the answers together with the cache and the time they leave.
-/

namespace Locator.Cache

/-- One operation. The time passes only in `wait`, in nanoseconds. -/
inductive Step (α ε : Type) where
  /-- Ask for a value; if there is none, fetch it by doing `inner` and ending with `outcome`. -/
  | fetch (key : String) (inner : List (Step α ε)) (outcome : Outcome α ε)
  | get (key : String)
  | invalidate (key : String)
  | clear
  | purge
  | size
  | wait (nanos : Nat)

/-- What an operation gives. -/
inductive Answer (α ε : Type) where
  | hit (value : α)
  | fetched (inner : List (Answer α ε)) (outcome : Outcome α ε)
  | got (value : Option α)
  | invalidated (hadValue : Bool)
  | done
  | purged (count : Nat)
  | counted (count : Nat)
  /-- The operation would wait for a slot that its own fetch keeps locked. -/
  | blocked

/-- A cache and the time. -/
structure Session (α : Type) where
  cache : Cache α
  now : Nat

variable {α ε : Type}

/-- The key leads to a slot that is being fetched into. -/
def isBusy (cache : Cache α) (key : String) : Bool :=
  (cache.slotOf? key).any fun id => (cache.slot id).locked

mutual

/-- Performs one operation. -/
def Step.run (session : Session α) : Step α ε → Answer α ε × Session α
  | .fetch key inner outcome =>
    match session.cache.enter key session.now with
    | .blocked => (.blocked, session)
    | .fresh value cache => (.hit value, { session with cache })
    | .vacant id cache =>
      let (answers, after) := Step.runAll { session with cache } inner
      (.fetched answers outcome,
        { after with cache := after.cache.settle key id outcome after.now })
  | .get key =>
    if session.cache.isBusy key then (.blocked, session)
    else (.got (session.cache.get? key session.now), session)
  | .invalidate key =>
    if session.cache.isBusy key then (.blocked, session)
    else
      let (hadValue, cache) := session.cache.invalidate key
      (.invalidated hadValue, { session with cache })
  | .clear => (.done, { session with cache := session.cache.clear })
  | .purge =>
    let (count, cache) := session.cache.purge session.now
    (.purged count, { session with cache })
  | .size =>
    if session.cache.anyLocked then (.blocked, session)
    else (.counted session.cache.size, session)
  | .wait nanos => (.done, { session with now := session.now + nanos })

/-- Performs operations in order. -/
def Step.runAll (session : Session α) : List (Step α ε) → List (Answer α ε) × Session α
  | [] => ([], session)
  | step :: rest =>
    let (answer, next) := Step.run session step
    let (answers, last) := Step.runAll next rest
    (answer :: answers, last)

end

end Locator.Cache
