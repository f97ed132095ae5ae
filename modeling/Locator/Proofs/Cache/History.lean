import Locator.Cache.Program
import Locator.Proofs.Cache.Slots

/-!
# What a run leaves behind, as a history

A run of operations on a cache is told by its events: which suppliers started and how they ended,
and which keys were forgotten. `settled` picks the ends that still count for a key, and `standing`
is the entry the last of them left. Nothing here looks at a slot.

* `settled_append`: one more event at the end of a history
* `standing_append_ended`, `standing_append_forgets`, …: what it does to the standing entry
-/

namespace Locator.Cache

variable {α ε : Type}

/-- What happens in a run, as far as later lookups depend on it. -/
inductive Event (α ε : Type) where
  /-- The supplier of a fetch starts. Its place in the history names the fetch. -/
  | started (key : String)
  /-- The supplier that started at a place in the history ends. -/
  | ended (start : Nat) (outcome : Outcome α ε) (time : Nat)
  | invalidated (key : String)
  | cleared

namespace Event

def starts (key : String) : Event α ε → Bool
  | .started other => other == key
  | _ => false

def forgets (key : String) : Event α ε → Bool
  | .invalidated other => other == key
  | .cleared => true
  | _ => false

variable {key other : String}

@[simp] theorem forgets_started : (started other : Event α ε).forgets key = false := rfl

@[simp] theorem forgets_ended {start time : Nat} {outcome : Outcome α ε} :
    (ended start outcome time).forgets key = false := rfl

@[simp] theorem forgets_invalidated :
    (invalidated other : Event α ε).forgets key = (other == key) := rfl

@[simp] theorem forgets_cleared : (cleared : Event α ε).forgets key = true := rfl

end Event

/-! ## Events of a run -/

mutual

/-- The events of one operation behind a history of the given length. An operation that has to
wait for its own run has none. -/
def Step.events (session : Session α) (past : Nat) : Step α ε → List (Event α ε)
  | .fetch key inner outcome =>
    match session.cache.enter key session.now with
    | .vacant _ cache =>
      let opened := { session with cache }
      .started key :: Step.eventsAll opened (past + 1) inner ++
        [.ended past outcome (Step.runAll opened inner).2.now]
    | _ => []
  | .invalidate key => if session.cache.isBusy key then [] else [.invalidated key]
  | .clear => [.cleared]
  | .get _ | .purge | .size | .wait _ => []

/-- The events of operations in order. -/
def Step.eventsAll (session : Session α) (past : Nat) : List (Step α ε) → List (Event α ε)
  | [] => []
  | step :: rest =>
    let events := Step.events session past step
    events ++ Step.eventsAll (Step.run session step).2 (past + events.length) rest

end

/-! ## What counts for a key -/

/-- The supplier that started at a place ran for the key, and since then the key was neither
invalidated nor everything cleared. -/
def isLive (history : List (Event α ε)) (key : String) (start : Nat) : Bool :=
  history[start]?.any (·.starts key) && (history.drop (start + 1)).all (!·.forgets key)

/-- The outcome and the time of an event that counts for the key: the end of a live supplier that
was not torn down. -/
def settlement (history : List (Event α ε)) (key : String) :
    Event α ε → Option (Outcome α ε × Nat)
  | .ended _ .aborted _ => none
  | .ended start outcome time =>
    if isLive history key start then some (outcome, time) else none
  | _ => none

/-- How the live suppliers of a key that were not torn down ended, in order. -/
def settled (history : List (Event α ε)) (key : String) : List (Outcome α ε × Nat) :=
  history.filterMap (settlement history key)

/-- What the supplier that ended last left for the key. -/
def standing (history : List (Event α ε)) (key : String) : Option (Entry α) :=
  (settled history key).getLast?.bind fun (outcome, time) => outcome.entryAfter time none

/-- The supplier that ended last among those that count for the key gave this value, no longer
before `now` than the time to live. -/
def Stands (ttl : Duration) (history : List (Event α ε)) (key : String) (now : Nat) (value : α) :
    Prop :=
  ∃ time, (settled history key).getLast? = some (.value value, time) ∧
    now - time ≤ ttl.toNanos

/-- Only what started in the history has ended in it. -/
def Coherent (history : List (Event α ε)) : Prop :=
  ∀ start outcome time, .ended start outcome time ∈ history → start < history.length

/-! ## One more event -/

variable {history : List (Event α ε)} {event : Event α ε} {key other : String} {start : Nat}

theorem isLive_append (h : start < history.length) :
    isLive (history ++ [event]) key start = (isLive history key start && !event.forgets key) := by
  have hdrop : (history ++ [event]).drop (start + 1) = history.drop (start + 1) ++ [event] :=
    List.drop_append_of_le_length h
  simp [isLive, List.getElem?_append_left h, hdrop, Bool.and_assoc]

/-- A supplier that has just started is live for its key and for no other. -/
theorem isLive_append_started :
    isLive (history ++ [.started key]) other history.length = (key == other) := by
  simp [isLive, Event.starts]

/-- What counted before still does, unless the key is forgotten now. -/
private theorem settlement_append (coherent : Coherent history) (past : Event α ε)
    (hpast : past ∈ history) :
    settlement (history ++ [event]) key past =
      if event.forgets key then none else settlement history key past := by
  cases past with
  | ended start outcome time =>
    have hlt := coherent start outcome time hpast
    cases outcome <;> simp only [settlement, isLive_append hlt] <;>
      cases event.forgets key <;> simp
  | _ => simp [settlement]

theorem settled_append (coherent : Coherent history) :
    settled (history ++ [event]) key =
      (if event.forgets key then [] else settled history key) ++
        (settlement (history ++ [event]) key event).toList := by
  -- earlier ends count as before, or not at all any more
  have hpast : history.filterMap (settlement (history ++ [event]) key) =
      if event.forgets key then [] else settled history key := by
    rw [List.filterMap_congr (settlement_append coherent)]
    cases event.forgets key with
    | true => simp
    | false => simp [settled]
  rw [settled, List.filterMap_append, hpast]
  cases h : settlement (history ++ [event]) key event <;> simp [h]

theorem Coherent.append (coherent : Coherent history)
    (h : ∀ start outcome time, event = .ended start outcome time → start < history.length) :
    Coherent (history ++ [event]) := by
  intro start outcome time hmem
  rw [List.length_append, List.length_singleton]
  cases List.mem_append.1 hmem with
  | inl hmem => exact Nat.lt_succ_of_lt (coherent start outcome time hmem)
  | inr hmem => exact Nat.lt_succ_of_lt (h start outcome time (List.mem_singleton.1 hmem).symm)

theorem standing_append_started (coherent : Coherent history) :
    standing (history ++ [.started other]) key = standing history key := by
  simp [standing, settled_append coherent, settlement]

/-- A live supplier leaves what its outcome says, one that is not live leaves nothing new. -/
theorem standing_append_ended (coherent : Coherent history) (hstart : start < history.length)
    (outcome : Outcome α ε) (time : Nat) :
    standing (history ++ [.ended start outcome time]) key =
      if isLive history key start then outcome.entryAfter time (standing history key)
      else standing history key := by
  have hlive : isLive (history ++ [.ended start outcome time]) key start =
      isLive history key start := by
    simp [isLive_append hstart]
  rw [standing, settled_append coherent, Event.forgets_ended]
  cases hlive' : isLive history key start <;> cases outcome <;>
    simp [settlement, hlive, hlive', standing, Outcome.entryAfter]

theorem standing_append_forgets (coherent : Coherent history) (h : event.forgets key = true) :
    standing (history ++ [event]) key = none := by
  cases event <;> simp_all [standing, settled_append coherent, settlement]

theorem standing_append_invalidated (coherent : Coherent history) :
    standing (history ++ [.invalidated other]) key =
      if key = other then none else standing history key := by
  by_cases h : key = other
  · rw [if_pos h, standing_append_forgets coherent (by simp [h])]
  · have hforgets : (Event.invalidated other : Event α ε).forgets key = false := by
      simpa using Ne.symm h
    simp [standing, settled_append coherent, settlement, hforgets, h]

/-- A value stands exactly when the standing entry is fresh and holds it. -/
theorem stands_iff {ttl : Duration} {now : Nat} {value : α} :
    Stands ttl history key now value ↔
      ((standing history key).filter (·.isFresh ttl now)).map (·.value) = some value := by
  unfold Stands standing
  cases h : (settled history key).getLast? with
  | none => simp
  | some last =>
    obtain ⟨outcome, time⟩ := last
    cases outcome with
    | value stored =>
      -- the last fetch that counts brought a value, so it stands while it is fresh
      simp only [Option.some.injEq, Prod.mk.injEq, Outcome.value.injEq, Option.bind_some,
        Outcome.entryAfter, Option.filter_some]
      by_cases hfresh : now - time ≤ ttl.toNanos
      · have hfresh' : (Entry.mk stored time).isFresh ttl now = true := decide_eq_true hfresh
        rw [if_pos hfresh']
        simp [hfresh]
      · have hfresh' : ¬ (Entry.mk stored time).isFresh ttl now = true := by
          simpa [Entry.isFresh] using hfresh
        rw [if_neg hfresh']
        simp only [Option.map_none, reduceCtorEq, iff_false]
        rintro ⟨_, ⟨-, rfl⟩, hle⟩
        exact hfresh hle
    | error _ => simp [Outcome.entryAfter]
    | aborted => simp [Outcome.entryAfter]

end Locator.Cache
