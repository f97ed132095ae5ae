import Locator.Proofs.Cache.Entries

/-!
# Who made a slot

A slot is made for the supplier that is to fill it. When that supplier is torn down the slot stays
empty, and this is the only way in which a run of operations leaves an empty slot behind: every
other end of a fetch fills its slot or takes it away.

* `Step.makers`: how the suppliers ended that slots were made for, slot by slot
* `slot_run_of_locked`: what is fetched into is left alone by all that goes on meanwhile
* `Founded.run`: an empty slot that nobody fetches into was made for a supplier that was torn down
-/

namespace Locator.Cache

variable {α ε : Type} {cache after : Cache α} {key : String} {id : SlotId}

/-! ## Makers -/

/-- The supplier of a fetch, by its outcome, if a slot is made for it. -/
def newMaker (cache : Cache α) (key : String) (outcome : Outcome α ε) : List (Outcome α ε) :=
  if cache.slotOf? key = none then [outcome] else []

mutual

/-- The outcomes of the suppliers that slots are made for in an operation, in the order of the
slots. -/
def Step.makers (session : Session α) : Step α ε → List (Outcome α ε)
  | .fetch key inner outcome =>
    match session.cache.enter key session.now with
    | .vacant _ cache =>
      newMaker session.cache key outcome ++ Step.makersAll { session with cache } inner
    | _ => []
  | .get _ | .invalidate _ | .clear | .purge | .size | .wait _ => []

/-- The same for operations in order. -/
def Step.makersAll (session : Session α) : List (Step α ε) → List (Outcome α ε)
  | [] => []
  | step :: rest => Step.makers session step ++ Step.makersAll (Step.run session step).2 rest

end

/-! ## Slots that are fetched into -/

/-- A fetch that comes in has another slot than those that are fetched into already. -/
theorem ne_take_fst_of_locked (tidy : cache.Tidy) (free : cache.isBusy key = false)
    (locked : (cache.slot id).locked = true) : id ≠ (cache.take key).1 := by
  have htake : ((cache.take key).2.slot (cache.take key).1).locked = cache.isBusy key :=
    locked_take tidy
  rw [slot_take tidy, if_pos rfl, free] at htake
  rintro rfl
  exact Bool.false_ne_true (htake.symm.trans locked)

section

variable {ttl : Duration} {history : List (Event α ε)} {session : Session α} {frames : List Frame}

mutual

/-- Operations leave a slot alone that is being fetched into while they run. -/
theorem slot_run_of_locked {history : List (Event α ε)} {session : Session α} {frames : List Frame}
    (tracks : Tracks ttl history session frames) (locked : (session.cache.slot id).locked = true) :
    (step : Step α ε) → (Step.run session step).2.cache.slot id = session.cache.slot id
  | .fetch key inner outcome => by
    rw [Step.run, enter_eq tracks.tidy]
    cases free : session.cache.isBusy key with
    | true => rfl
    | false =>
      have hne := ne_take_fst_of_locked tracks.tidy free locked
      cases session.cache.get? key session.now with
      | some value => exact slot_take_drop tracks.tidy id
      | none =>
        -- nothing within the fetch touches the slot, by the other half of the induction, and
        -- neither does its end, which is about the fetch's own slot
        have opened := tracks.startFetch free
        have hopened : (session.cache.opened key).slot id = session.cache.slot id := by
          rw [slot_opened tracks.tidy, if_neg hne]
        have hwithin := slot_runAll_of_locked opened (hopened.symm ▸ locked) inner
        have hlen := (Tracks.runAll opened inner).lt_length List.mem_cons_self
        exact (slot_settle hlen outcome id).trans ((if_neg hne).trans (hwithin.trans hopened))
  | .get key => by
    rw [Step.run]
    split <;> rfl
  | .invalidate key => by
    rw [Step.run]
    split
    · rfl
    · exact slot_invalidate id
  | .clear => rfl
  | .purge => rfl
  | .size => by
    rw [Step.run]
    split <;> rfl
  | .wait nanos => rfl

theorem slot_runAll_of_locked {history : List (Event α ε)} {session : Session α}
    {frames : List Frame} (tracks : Tracks ttl history session frames)
    (locked : (session.cache.slot id).locked = true) :
    (steps : List (Step α ε)) →
      (Step.runAll session steps).2.cache.slot id = session.cache.slot id
  | [] => rfl
  | step :: rest => by
    have first := slot_run_of_locked tracks locked step
    have others := slot_runAll_of_locked (tracks.run step) (first.symm ▸ locked) rest
    exact others.trans first

end

/-- What a slot holds when a fetch comes into it is what it holds when the supplier ends. -/
theorem entry_of_fetching (tracks : Tracks ttl history session frames)
    (free : session.cache.isBusy key = false) (inner : List (Step α ε)) :
    let opened : Session α := { session with cache := session.cache.opened key }
    ((Step.runAll opened inner).2.cache.slot (session.cache.take key).1).entry =
      (session.cache.slot (session.cache.take key).1).entry := by
  intro opened
  have hslot : opened.cache.slot (session.cache.take key).1 =
      { session.cache.slot (session.cache.take key).1 with
        holders := (session.cache.slot (session.cache.take key).1).holders + 1
        locked := true } := by
    rw [slot_opened tracks.tidy, if_pos rfl]
  have hkept := slot_runAll_of_locked (tracks.startFetch free) (congrArg Slot.locked hslot) inner
  rw [hkept, hslot]

end

/-! ## Empty slots -/

/-- Every slot has its maker, and a slot that a key leads to and that nobody fetches into is empty
only where the maker was torn down. -/
structure Founded (made : List (Outcome α ε)) (cache : Cache α) : Prop where
  length_eq : cache.slots.length = made.length
  torn : ∀ key id, cache.slotOf? key = some id → (cache.slot id).locked = false →
    (cache.slot id).entry = none → made[id]? = some .aborted

private theorem getElem?_append_of_eq_some {σ : Type} {front : List σ} {i : Nat} {x : σ}
    (h : front[i]? = some x) (back : List σ) : (front ++ back)[i]? = some x := by
  rw [List.getElem?_append_left (List.getElem?_eq_some_iff.mp h).1, h]

namespace Founded

variable {made : List (Outcome α ε)} {ttl : Duration} {history : List (Event α ε)}
  {session : Session α} {frames : List Frame} {frame : Frame}

theorem empty (ttl : Duration) : Founded ([] : List (Outcome α ε)) ({ ttl } : Cache α) :=
  ⟨rfl, nofun⟩

/-- Keys may be forgotten, and what is in the slots stays. -/
theorem congr (founded : Founded made cache)
    (hlen : after.slots.length = cache.slots.length)
    (hslotOf : ∀ key id, after.slotOf? key = some id → cache.slotOf? key = some id)
    (hslot : ∀ id, after.slot id = cache.slot id) : Founded made after where
  length_eq := hlen.trans founded.length_eq
  torn key id hkey := by
    rw [hslot]
    exact founded.torn key id (hslotOf key id hkey)

/-- The slot of a fetch that comes in is there, if it was not already, with its supplier as its
maker. -/
theorem startFetch (founded : Founded made cache) (tidy : cache.Tidy) (key : String)
    (outcome : Outcome α ε) :
    Founded (made ++ newMaker cache key outcome) (cache.opened key) where
  length_eq := by
    rw [opened, lock, length_slots_modify, length_slots_take, founded.length_eq,
      List.length_append, newMaker]
    cases cache.slotOf? key <;> rfl
  torn k j hk hlocked hentry := by
    rw [slot_opened tidy] at hlocked hentry
    -- the new slot is locked, so this is an old one
    have hne : j ≠ (cache.take key).1 := by
      intro heq
      rw [if_pos heq] at hlocked
      exact Bool.false_ne_true hlocked.symm
    rw [slotOf?_opened] at hk
    rw [if_neg hne] at hlocked hentry
    split at hk
    · exact absurd (Option.some.inj hk).symm hne
    · exact getElem?_append_of_eq_some (founded.torn k j hk hlocked hentry) _

/-- Where the slot of a fetch that comes in is empty, it was made for a supplier that was torn down,
or is made for this one. -/
theorem torn_startFetch (founded : Founded made cache) (free : cache.isBusy key = false)
    (hentry : (cache.slot (cache.take key).1).entry = none) :
    (made ++ newMaker cache key (.aborted : Outcome α ε))[(cache.take key).1]? =
      some .aborted := by
  rw [take_fst] at hentry ⊢
  rw [isBusy] at free
  cases hkey : cache.slotOf? key with
  | none =>
    rw [newMaker, if_pos hkey, Option.getD_none, founded.length_eq, List.getElem?_concat_length]
  | some j =>
    rw [hkey] at hentry free
    exact getElem?_append_of_eq_some (founded.torn key j hkey free hentry) _

/-- A fresh value is handed out: its slot is held for a moment only. -/
theorem hit (founded : Founded made cache) (tidy : cache.Tidy) {now : Nat} {value : α}
    (hget : cache.get? key now = some value) :
    Founded made ((cache.take key).2.drop (cache.take key).1) := by
  obtain ⟨j, hj, -⟩ := Option.bind_eq_some_iff.mp hget
  exact founded.congr (length_slots_take_drop hj) (fun k _ => (slotOf?_take_drop hj k).symm.trans)
    (slot_take_drop tidy)

theorem invalidate (founded : Founded made cache) (key : String) :
    Founded made (cache.invalidate key).2 := by
  refine founded.congr length_slots_invalidate ?_ slot_invalidate
  intro k id hk
  rw [slotOf?_invalidate] at hk
  split at hk
  · cases hk
  · exact hk

theorem purge (founded : Founded made cache) (tidy : cache.Tidy) (now : Nat) :
    Founded made (cache.purge now).2 := by
  refine founded.congr rfl ?_ fun _ => rfl
  intro k id hk
  rw [slotOf?_purge tidy, Option.filter_eq_some_iff] at hk
  exact hk.1

/-- A fetch that ends fills its slot or takes it away, unless it is torn down. -/
theorem endFetch (founded : Founded made session.cache)
    (tracks : Tracks ttl history session (frame :: frames)) (outcome : Outcome α ε)
    (hmade : (session.cache.slot frame.id).entry = none → outcome = .aborted →
      made[frame.id]? = some .aborted) :
    Founded made (session.cache.settle frame.key frame.id outcome session.now) where
  length_eq := by
    rw [length_slots_settle]
    exact founded.length_eq
  torn k j hk hlocked hentry := by
    have hself : frame ∈ frame :: frames := List.mem_cons_self
    have hlen := tracks.lt_length hself
    -- only a fetch that fails takes its key out, and then the key leads nowhere
    rw [slotOf?_settle hlen (tracks.slot_busy frame hself).2] at hk
    split at hk
    · cases hk
    · next hstays =>
      rw [slot_settle hlen] at hlocked hentry
      by_cases hj : j = frame.id
      · -- its own slot, which its own key leads to
        subst hj
        obtain rfl := tracks.key_of_slot frame hself k hk
        rw [if_pos rfl] at hentry
        cases outcome with
        | value value => cases hentry
        | error error => exact absurd ⟨rfl, rfl, hk⟩ hstays
        | aborted => exact hmade hentry rfl
      · rw [if_neg hj] at hlocked hentry
        exact founded.torn k j hk hlocked hentry

end Founded

mutual

/-- Every operation keeps count of the makers, whatever its supplier does before it ends. -/
theorem Founded.run {made : List (Outcome α ε)} {ttl : Duration} {history : List (Event α ε)}
    {session : Session α} {frames : List Frame} (founded : Founded made session.cache)
    (tracks : Tracks ttl history session frames) :
    (step : Step α ε) →
      Founded (made ++ Step.makers session step) (Step.run session step).2.cache
  | .fetch key inner outcome => by
    rw [Step.makers, Step.run, enter_eq tracks.tidy]
    cases free : session.cache.isBusy key with
    | true => simpa using founded
    | false =>
      cases hget : session.cache.get? key session.now with
      | some value => simpa using founded.hit tracks.tidy hget
      | none =>
        have opened := tracks.startFetch free
        have within := Tracks.runAll opened inner
        have started := Founded.runAll (founded.startFetch tracks.tidy key outcome) opened inner
        rw [List.append_assoc] at started
        refine started.endFetch within outcome ?_
        -- torn down, so what is in the slot is what was in it when the fetch came in
        rintro hentry rfl
        rw [entry_of_fetching tracks free] at hentry
        rw [← List.append_assoc]
        exact getElem?_append_of_eq_some (founded.torn_startFetch free hentry) _
  | .get key => by
    rw [Step.makers, Step.run, List.append_nil]
    split <;> exact founded
  | .invalidate key => by
    rw [Step.makers, Step.run, List.append_nil]
    split
    · exact founded
    · exact founded.invalidate key
  | .clear => by
    rw [Step.makers, Step.run, List.append_nil]
    exact founded.congr rfl nofun fun _ => rfl
  | .purge => by
    rw [Step.makers, Step.run, List.append_nil]
    exact founded.purge tracks.tidy session.now
  | .size => by
    rw [Step.makers, Step.run, List.append_nil]
    split <;> exact founded
  | .wait nanos => by
    rw [Step.makers, Step.run, List.append_nil]
    exact founded

theorem Founded.runAll {made : List (Outcome α ε)} {ttl : Duration} {history : List (Event α ε)}
    {session : Session α} {frames : List Frame} (founded : Founded made session.cache)
    (tracks : Tracks ttl history session frames) :
    (steps : List (Step α ε)) →
      Founded (made ++ Step.makersAll session steps) (Step.runAll session steps).2.cache
  | [] => by simpa [Step.makersAll, Step.runAll] using founded
  | step :: rest => by
    have first := Founded.run founded tracks step
    have others := Founded.runAll first (tracks.run step) rest
    simpa [Step.makersAll, Step.runAll] using others

end

end Locator.Cache
