import Locator.Proofs.Cache.Attachment

/-!
# One fetch serves everybody

Callers that fetch, look or count, in any number and any order of turns. Without a purge they are
always attached, so no two suppliers of one key run at once. If no fetch goes wrong and no value
gets old, what the first fetch of a key stored stays, and everybody who comes later is given it
(`Served`).

* `Served.goes`: whoever moves, the one fetch of a key goes on serving everybody
* `single_flight`: at most one supplier at a time, or ever, and nobody waits for ever
-/

namespace Locator.Cache

variable {α ε : Type}

theorem Phase.hasRun_cases {phase : Phase α ε} (h : phase.hasRun = true) :
    (∃ id, phase = .fetching id) ∨ (∃ id, phase = .failed id) ∨
      ∃ reply, phase.reply? = some reply := by
  cases phase with
  | fetching id => exact .inl ⟨id, rfl⟩
  | failed id => exact .inr (.inl ⟨id, rfl⟩)
  | leaving held reply => exact .inr (.inr ⟨reply, rfl⟩)
  | finished reply => exact .inr (.inr ⟨reply, rfl⟩)
  | _ => exact nomatch h

/-- The value that a fetch gives its caller. -/
def Reply.value? : Reply α ε → Option α
  | .hit value | .fetched (.value value) => some value
  | _ => none

/-- The key leads to a slot with the value. -/
def Stores (cache : Cache α) (key : String) (value : α) : Prop :=
  ∃ id storedAt, cache.slotOf? key = some id ∧ (cache.slot id).entry = some ⟨value, storedAt⟩

namespace Advances

variable {now : Nat} {call : Call α ε} {phase phase' : Phase α ε} {cache cache' : Cache α}
  {reply : Reply α ε} {key : String} {value : α}

/-- A reply is never changed. -/
theorem reply?_kept (h : Advances now call phase cache phase' cache')
    (hreply : phase.reply? = some reply) : phase'.reply? = some reply := by
  cases h with
  | drop | finish => exact hreply
  | _ => exact nomatch hreply

/-- How a fetch comes to its reply. -/
theorem reply?_cases {outcome : Outcome α ε}
    (h : Advances now (.fetch key outcome) phase cache phase' cache')
    (hreply : phase'.reply? = some reply) :
    phase.reply? = some reply ∨
      (∃ id value, phase = .holding id ∧ reply = .hit value ∧
        cache.freshIn? id now = some value) ∨
      (∃ id, phase = .fetching id ∧ reply = .fetched outcome ∧
        cache' = cache.record id outcome now) ∨
      ∃ id, phase = .failed id := by
  -- the sections that give a reply; the others leave the caller without one or with the one it has
  cases h with
  | hit _ fresh =>
    cases hreply
    exact .inr (.inl ⟨_, _, rfl, rfl, fresh⟩)
  | record =>
    cases hreply
    exact .inr (.inr (.inl ⟨_, rfl, rfl, rfl⟩))
  | release => exact .inr (.inr (.inr ⟨_, rfl⟩))
  | drop | finish => exact .inl hreply
  | _ => exact nomatch hreply

/-- A supplier starts in one section only. -/
theorem hasRun_cases (h : Advances now call phase cache phase' cache')
    (hrun : phase'.hasRun = true) :
    phase.hasRun = true ∨ ∃ key outcome id, call = .fetch key outcome ∧ phase = .holding id ∧
      (cache.slot id).locked = false ∧ cache.freshIn? id now = none := by
  cases h with
  | lock unlocked stale => exact .inr ⟨_, _, _, rfl, rfl, unlocked, stale⟩
  | fail | record | release => exact .inl rfl
  | @drop _ _ _ _ reply | @finish _ _ reply =>
    left
    cases reply <;> first | rfl | exact nomatch hrun
  | _ => exact nomatch hrun

/-- What a key stores after a section it stored before, or a fetch has just brought it. -/
theorem stores_cases (h : Advances now call phase cache phase' cache') (tidy : cache.Tidy)
    (backs : Backs cache phase)
    (attached : ∀ key id, (Caller.mk call phase).seeks? = some (key, id) →
      cache.slotOf? key = some id)
    (hstores : cache'.Stores key value) :
    cache.Stores key value ∨
      call = .fetch key (.value value) ∧ phase'.reply? = some (.fetched (.value value)) := by
  obtain ⟨id, storedAt, hkey, hentry⟩ := hstores
  by_cases hlock : id ∈ phase.locks
  · -- the fetch into this very slot ends
    cases h with
    | fail =>
      cases List.mem_singleton.1 hlock
      rw [slot_record (backs.lt_length (List.mem_singleton_self _)), if_pos rfl] at hentry
      exact nomatch hentry
    | @record _ name outcome own noError =>
      cases List.mem_singleton.1 hlock
      rw [slotOf?_record] at hkey
      rw [slot_record (backs.lt_length (List.mem_singleton_self _)), if_pos rfl] at hentry
      cases outcome with
      | value fresh =>
        cases tidy.key_unique (attached name id rfl) hkey
        cases hentry
        exact .inr ⟨rfl, rfl⟩
      | error _ => exact nomatch noError
      | aborted => exact .inl ⟨id, storedAt, hkey, hentry⟩
    | _ => exact nomatch hlock
  · -- the slot is as it was, and it is no new one because it is not empty
    left
    rw [h.entry_eq tidy backs hlock] at hentry
    obtain hknown | hnew := h.slotOf?_new tidy hkey
    · exact ⟨id, storedAt, hknown, hentry⟩
    · rw [slot_of_length_le hnew] at hentry
      exact nomatch hentry

/-- What a key stores stays, as long as nobody fetches for it, forgets it or purges. -/
theorem stores_kept (h : Advances now call phase cache phase' cache') (tidy : cache.Tidy)
    (backs : Backs cache phase) (idle : ∀ id ∈ phase.locks, cache.slotOf? key ≠ some id)
    (noFailure : ∀ id, phase ≠ .failed id) (noPurge : call ≠ .purge)
    (hstores : cache.Stores key value) : cache'.Stores key value := by
  obtain ⟨id, storedAt, hkey, hentry⟩ := hstores
  refine ⟨id, storedAt, ?_, ?_⟩
  · obtain hkept | ⟨_, _, hphase, _⟩ | ⟨_, hcall, _⟩ := h.slotOf?_kept tidy hkey
    · exact hkept
    · exact absurd hphase (noFailure id)
    · exact absurd hcall noPurge
  · rw [h.entry_eq tidy backs (fun hlock => idle id hlock hkey), hentry]

end Advances

namespace Hall

variable {hall next : Hall α ε} {turn : Turn} {key : String} {value : α}

/-- No value has become too old. -/
def Timely (hall : Hall α ε) : Prop :=
  ∀ slot ∈ hall.cache.slots, ∀ entry ∈ slot.entry,
    entry.isFresh hall.cache.ttl hall.now = true

instance : Decidable hall.Timely :=
  inferInstanceAs (Decidable (∀ slot ∈ hall.cache.slots, ∀ entry ∈ slot.entry, _ = true))

theorem Timely.freshIn? (timely : hall.Timely) {id : SlotId} {entry : Entry α}
    (hentry : (hall.cache.slot id).entry = some entry) :
    hall.cache.freshIn? id hall.now = some entry.value := by
  have hmem : hall.cache.slot id ∈ hall.cache.slots := by
    have hlt : id < hall.cache.slots.length := by
      apply lt_length_of_slot_ne
      intro heq
      rw [heq] at hentry
      exact nomatch hentry
    rw [Cache.slot, List.getD_eq_getElem?_getD, List.getElem?_eq_getElem hlt]
    exact List.getElem_mem hlt
  have hfresh := timely _ hmem entry hentry
  rw [Cache.freshIn?, hentry, Option.filter_some, if_pos hfresh]
  rfl

/-- No two suppliers of one key have run or run. -/
def Once (hall : Hall α ε) : Prop :=
  ∀ (i j : Nat) key outcome outcome' phase phase',
    hall.callers[i]? = some ⟨.fetch key outcome, phase⟩ →
      hall.callers[j]? = some ⟨.fetch key outcome', phase'⟩ →
      phase.hasRun = true → phase'.hasRun = true → i = j

/-- A supplier that has run after a section has run before it, or the section has started it. -/
theorem ran_or_starts {position k : Nat} {mover : Caller α ε} {phase after : Phase α ε}
    {cache : Cache α} {outcome : Outcome α ε} (here : hall.callers[position]? = some mover)
    (advances : Advances hall.now mover.call mover.phase hall.cache phase cache)
    (hk : (hall.callers.set position { mover with phase })[k]? =
      some ⟨.fetch key outcome, after⟩) (hrun : after.hasRun = true) :
    (∃ before, hall.callers[k]? = some ⟨.fetch key outcome, before⟩ ∧ before.hasRun = true) ∨
      k = position ∧ ∃ id, mover = ⟨.fetch key outcome, .holding id⟩ ∧
        (hall.cache.slot id).locked = false ∧ hall.cache.freshIn? id hall.now = none := by
  by_cases hpos : position = k
  · subst hpos
    rw [List.getElem?_set_self (List.getElem?_eq_some_iff.1 here).1] at hk
    obtain ⟨call, before⟩ := mover
    cases hk
    -- a supplier starts in the section that locks the slot and in no other
    obtain hbefore | ⟨_, _, id, hcall, rfl, unlocked, stale⟩ := advances.hasRun_cases hrun
    · exact .inl ⟨before, here, hbefore⟩
    · exact .inr ⟨rfl, id, rfl, unlocked, stale⟩
  · rw [List.getElem?_set_ne hpos] at hk
    exact .inl ⟨after, hk, hrun⟩

/-- For every key one fetch at most has brought a value, and every fetch was given that value. -/
structure Served (calls : List (Call α ε)) (hall : Hall α ε) : Prop where
  consistent : hall.Consistent
  fitting : hall.Fitting
  attached : hall.Attached
  calls_eq : hall.callers.map Caller.call = calls
  once : hall.Once
  /-- Whatever a key stores was fetched for it. -/
  fetched : ∀ key value, hall.cache.Stores key value →
    ∃ runner ∈ hall.callers, runner.call = .fetch key (.value value) ∧
      runner.phase.reply? = some (.fetched (.value value))
  /-- Whatever a fetch was given is still stored. -/
  replied : ∀ caller ∈ hall.callers, ∀ key outcome reply, caller.call = .fetch key outcome →
    caller.phase.reply? = some reply →
    ∃ value, reply.value? = some value ∧ hall.cache.Stores key value

namespace Served

variable {calls : List (Call α ε)} {caller : Caller α ε} {id : SlotId}

theorem call_mem (served : hall.Served calls) (h : caller ∈ hall.callers) :
    caller.call ∈ calls := by
  rw [← served.calls_eq]
  exact List.mem_map_of_mem h

/-- Nobody fetches for a key that stores something. -/
theorem idle (served : hall.Served calls) (hstores : hall.cache.Stores key value)
    (h : caller ∈ hall.callers) : ∀ id ∈ caller.phase.locks, hall.cache.slotOf? key ≠ some id := by
  intro id hlock hkey
  obtain ⟨call, phase⟩ := caller
  cases Phase.eq_fetching_of_mem_locks hlock
  obtain ⟨name, outcome, rfl⟩ := served.fitting _ h
  cases served.consistent.tidy.key_unique (served.attached _ h name id rfl) hkey
  -- the caller that fetched the value would be this one
  obtain ⟨⟨_, phase⟩, hrunner, rfl, hreply⟩ := served.fetched key value hstores
  obtain ⟨i, hi⟩ := List.getElem?_of_mem h
  obtain ⟨j, hj⟩ := List.getElem?_of_mem hrunner
  have hran : phase.hasRun = true := by
    cases phase <;> simp_all [Phase.reply?, Phase.hasRun]
  cases served.once i j key _ _ _ _ hi hj rfl hran
  rw [hi] at hj
  cases hj
  exact nomatch hreply

variable {position : Nat} {mover : Caller α ε} {phase : Phase α ε} {cache : Cache α}

/-- What a key stores after a section has been fetched for it. -/
theorem fetched_goes (served : hall.Served calls)
    (here : hall.callers[position]? = some mover)
    (advances : Advances hall.now mover.call mover.phase hall.cache phase cache)
    (hstores : cache.Stores key value) :
    ∃ runner ∈ hall.callers.set position { mover with phase },
      runner.call = .fetch key (.value value) ∧
        runner.phase.reply? = some (.fetched (.value value)) := by
  have hmover := List.mem_of_getElem? here
  have hlt := (List.getElem?_eq_some_iff.1 here).1
  -- stored before, by a caller that has its reply still, or in this section by the one who moved
  obtain hbefore | ⟨hcall, hreply⟩ := advances.stores_cases served.consistent.tidy
    (served.consistent.backs hmover) (served.attached mover hmover) hstores
  · obtain ⟨runner, hrunner, hcall, hreply⟩ := served.fetched key value hbefore
    obtain ⟨k, hk⟩ := List.getElem?_of_mem hrunner
    by_cases hpos : position = k
    · subst hpos
      rw [here] at hk
      cases hk
      exact ⟨_, List.mem_set hlt _, hcall, advances.reply?_kept hreply⟩
    · refine ⟨runner, List.mem_of_getElem? (i := k) ?_, hcall, hreply⟩
      rw [List.getElem?_set_ne hpos, hk]
  · exact ⟨_, List.mem_set hlt _, hcall, hreply⟩

section

variable (succeed : ∀ key outcome, Call.fetch key outcome ∈ calls → ∃ value, outcome = .value value)
include succeed

/-- Where no fetch goes wrong nobody has failed. -/
theorem not_failed (served : hall.Served calls) (h : caller ∈ hall.callers) :
    caller.phase ≠ .failed id := by
  intro hphase
  have fits := served.fitting caller h
  rw [hphase] at fits
  obtain ⟨key, error, hcall⟩ := fits
  obtain ⟨value, hvalue⟩ := succeed key _ (hcall ▸ served.call_mem h)
  exact nomatch hvalue

/-- Nobody finds a free slot without a fresh value once a supplier of the key has started. -/
theorem not_started (served : hall.Served calls) (timely : hall.Timely)
    {outcome outcome' : Outcome α ε} (hmover : ⟨.fetch key outcome, .holding id⟩ ∈ hall.callers)
    (unlocked : (hall.cache.slot id).locked = false)
    (stale : hall.cache.freshIn? id hall.now = none)
    (hother : ⟨.fetch key outcome', phase⟩ ∈ hall.callers) : phase.hasRun = false := by
  rw [← Bool.not_eq_true]
  intro hrun
  have hid := served.attached _ hmover key id rfl
  obtain ⟨other, rfl⟩ | ⟨other, rfl⟩ | ⟨reply, hreply⟩ := Phase.hasRun_cases hrun
  · -- it still runs, in the slot that was found free
    have hsame := served.attached _ hother key other rfl
    rw [hid] at hsame
    cases hsame
    have hlocked := (served.consistent.backs hother).locked (List.mem_singleton_self id)
    rw [unlocked] at hlocked
    exact nomatch hlocked
  · exact served.not_failed succeed hother rfl
  · -- it has brought a value, which is there and fresh
    obtain ⟨value, _, other, storedAt, hkey, hentry⟩ :=
      served.replied _ hother key outcome' reply rfl hreply
    rw [hid] at hkey
    cases hkey
    rw [timely.freshIn? hentry] at stale
    exact nomatch stale

/-- A supplier that starts is the first one for its key. -/
theorem once_goes (served : hall.Served calls) (timely : hall.Timely)
    (here : hall.callers[position]? = some mover)
    (advances : Advances hall.now mover.call mover.phase hall.cache phase cache) :
    Once { hall with cache, callers := hall.callers.set position { mover with phase } } := by
  have hmover := List.mem_of_getElem? here
  intro i j key outcome outcome' after after' hi hj hrun hrun'
  obtain ⟨before, hbefore, hran⟩ | ⟨rfl, id, rfl, unlocked, stale⟩ :=
    ran_or_starts here advances hi hrun
  · obtain ⟨before', hbefore', hran'⟩ | ⟨_, id', rfl, unlocked, stale⟩ :=
      ran_or_starts here advances hj hrun'
    · exact served.once i j key _ _ _ _ hbefore hbefore' hran hran'
    -- one of the two has just started, which it does not next to the other
    · have hnot := served.not_started succeed timely hmover unlocked stale
        (List.mem_of_getElem? hbefore)
      rw [hran] at hnot
      exact nomatch hnot
  · obtain ⟨before', hbefore', hran'⟩ | ⟨hpos, _⟩ := ran_or_starts here advances hj hrun'
    · have hnot := served.not_started succeed timely hmover unlocked stale
        (List.mem_of_getElem? hbefore')
      rw [hran'] at hnot
      exact nomatch hnot
    · exact hpos.symm

/-- Who has a reply after a section was given what is stored then. -/
theorem replied_goes (served : hall.Served calls)
    (noPurge : .purge ∉ calls) (here : hall.callers[position]? = some mover)
    (advances : Advances hall.now mover.call mover.phase hall.cache phase cache)
    (h : caller ∈ hall.callers.set position { mover with phase }) {outcome : Outcome α ε}
    {reply : Reply α ε} (hcall : caller.call = .fetch key outcome)
    (hreply : caller.phase.reply? = some reply) :
    ∃ value, reply.value? = some value ∧ cache.Stores key value := by
  have hmover := List.mem_of_getElem? here
  have backs := served.consistent.backs hmover
  -- nothing that is stored gets lost, so old replies stay true
  have hkeeps : ∀ value, hall.cache.Stores key value → cache.Stores key value := by
    intro value hstores
    refine advances.stores_kept served.consistent.tidy backs (served.idle hstores hmover)
      (fun _ => served.not_failed succeed hmover) ?_ hstores
    intro hpurge
    exact noPurge (hpurge ▸ served.call_mem hmover)
  cases List.mem_or_eq_of_mem_set h with
  | inl hother =>
    obtain ⟨value, hvalue, hstores⟩ := served.replied caller hother key outcome reply hcall hreply
    exact ⟨value, hvalue, hkeeps value hstores⟩
  | inr heq =>
    subst heq
    obtain ⟨call, before⟩ := mover
    cases hcall
    -- it had its reply, found a fresh value, fetched one itself, or failed, which no supplier does
    obtain hbefore | ⟨id, value, rfl, rfl, fresh⟩ | ⟨id, rfl, rfl, rfl⟩ | ⟨id, hphase⟩ :=
      advances.reply?_cases hreply
    · obtain ⟨value, hvalue, hstores⟩ := served.replied _ hmover key outcome reply rfl hbefore
      exact ⟨value, hvalue, hkeeps value hstores⟩
    · obtain ⟨entry, hentry, rfl⟩ := Option.map_eq_some_iff.1 fresh
      have hkey := served.attached _ hmover key id rfl
      exact ⟨entry.value, rfl,
        hkeeps _ ⟨id, entry.storedAt, hkey, (Option.filter_eq_some_iff.1 hentry).1⟩⟩
    · obtain ⟨value, rfl⟩ := succeed key _ (served.call_mem hmover)
      refine ⟨value, rfl, id, hall.now, served.attached _ hmover key id rfl, ?_⟩
      rw [slot_record (backs.lt_length (List.mem_singleton_self id)), if_pos rfl]
      rfl
    · exact absurd hphase (served.not_failed succeed hmover)

/-- Whoever moves, the one fetch of a key goes on serving everybody. -/
theorem goes (goes : Goes hall turn next) (timely : hall.Timely)
    (noPurge : .purge ∉ calls) (served : hall.Served calls) : next.Served calls := by
  -- only a purge disturbs, and no caller is one
  have undisturbed : ¬ hall.Disturbs turn := by
    intro ⟨position, since, _, here, _⟩
    exact noPurge (served.call_mem (List.mem_of_getElem? here))
  have hconsistent := served.consistent.goes goes
  have hfitting := served.fitting.goes goes
  have hattached := served.attached.goes goes served.consistent undisturbed
  have hcalls := goes.calls_eq.trans served.calls_eq
  cases goes with
  | idle => exact served
  | wait =>
    exact ⟨hconsistent, hfitting, hattached, hcalls, served.once, served.fetched, served.replied⟩
  | advance here advances =>
    refine ⟨hconsistent, hfitting, hattached, hcalls, ?_, ?_, ?_⟩
    · exact served.once_goes succeed timely here advances
    · intro key value hstores
      exact served.fetched_goes here advances hstores
    · intro caller hcaller key outcome reply hcall hreply
      exact served.replied_goes succeed noPurge here advances hcaller hcall hreply

end

theorem opening (ttl : Duration) (calls : List (Call α ε)) (now : Nat) :
    (Hall.opening ttl calls now).Served calls where
  consistent := Consistent.opening ttl calls now
  fitting := Fitting.opening ttl calls now
  attached := Attached.opening ttl calls now
  calls_eq := calls_opening ttl calls now
  once := by
    intro i j key outcome outcome' phase phase' hi _ hrun _
    obtain ⟨call, _, hcall⟩ := List.mem_map.1 (List.mem_of_getElem? hi)
    cases hcall
    exact nomatch hrun
  fetched := by
    intro key value ⟨id, storedAt, hkey, _⟩
    exact nomatch hkey
  replied := by
    intro caller hcaller key outcome reply _ hreply
    obtain ⟨call, _, rfl⟩ := List.mem_map.1 hcaller
    exact nomatch hreply

end Served

/-- Callers that fetch, look and count, in any order of turns. No two of them run the supplier of
one key at once, and whoever holds a slot for a key and has not passed it yet holds the slot that
the key leads to. If all fetches succeed and no value gets too old, then one supplier at most ever
runs for a key, and every fetch of the key is given its value. As long as somebody has not
finished, somebody can move, and the run can be continued until everybody has finished. -/
theorem single_flight (ttl : Duration) (calls : List (Call α ε)) (now : Nat)
    (schedule : List Turn) (noPurge : .purge ∉ calls) :
    let hall := (Hall.opening ttl calls now).run schedule
    hall.Exclusive ∧
    hall.Attached ∧
    ((∀ key outcome, .fetch key outcome ∈ calls → ∃ value, outcome = .value value) →
      (Hall.opening ttl calls now).Along (fun before _ => before.Timely) schedule →
      hall.Once ∧
      ∀ caller ∈ hall.callers, ∀ key outcome reply,
        caller.call = .fetch key outcome → caller.phase.reply? = some reply →
        ∃ runner ∈ hall.callers, ∃ value, runner.call = .fetch key (.value value) ∧
          runner.phase.reply? = some (.fetched (.value value)) ∧ reply.value? = some value) ∧
    (∀ waiting ∈ hall.callers, (∀ reply, waiting.phase ≠ .finished reply) →
      ∃ caller ∈ hall.callers, (caller.call.advance hall.cache hall.now caller.phase).isSome) ∧
    ∃ rest, ((Hall.opening ttl calls now).run (schedule ++ rest)).Ended := by
  intro hall
  have served : (Hall.opening ttl calls now).Served calls := Served.opening ttl calls now
  have consistent : hall.Consistent := served.consistent.run schedule
  have attached : hall.Attached := by
    refine served.attached.run served.consistent (along_not_disturbs ?_ schedule)
    rw [served.calls_eq]
    exact noPurge
  have fitting : hall.Fitting := served.fitting.run schedule
  refine ⟨attached.exclusive consistent, attached, ?_, ?_, ?_⟩
  · intro succeed timely
    -- the induction needs every turn to be timely, which `Along` says of the schedule
    have after : hall.Served calls := by
      refine run_induction (Served calls) ?_ timely served
      intro before turn next goes htimely hserved
      exact hserved.goes succeed goes htimely noPurge
    refine ⟨after.once, ?_⟩
    intro caller hcaller key outcome reply hcall hreply
    obtain ⟨value, hvalue, hstores⟩ := after.replied caller hcaller key outcome reply hcall hreply
    obtain ⟨runner, hrunner, hfetch, hran⟩ := after.fetched key value hstores
    exact ⟨runner, hrunner, value, hfetch, hran, hvalue⟩
  · intro waiting hwaiting unfinished
    exact somebody_moves consistent fitting hwaiting unfinished
  · obtain ⟨rest, hended⟩ := exists_ended consistent fitting
    refine ⟨rest, ?_⟩
    rw [run, List.foldl_append]
    exact hended

/-- Two callers fetch for one key: the second waits and is given the value of the first. -/
theorem second_fetch_waits :
    let calls : List (Call Nat String) := [.fetch "k" (.value 1), .fetch "k" (.value 2), .get "k"]
    let schedule : List Turn := [0, 1, 0, 1, 2, 0, 1].map Turn.caller
    let hall := (Hall.opening (.ofSeconds 60) calls 0).run schedule
    .purge ∉ calls ∧ hall.callers[1]? = some ⟨.fetch "k" (.value 2), .leaving [0] (.hit 1)⟩ ∧
      hall.Once ∧ hall.Attached := by
  intro calls schedule hall
  have noPurge : .purge ∉ calls := by decide
  obtain ⟨_, attached, served, _⟩ := single_flight (.ofSeconds 60) calls 0 schedule noPurge
  refine ⟨noPurge, by decide, (served ?_ (by decide)).1, attached⟩
  intro key outcome hmem
  simp only [calls, List.mem_cons, Call.fetch.injEq, reduceCtorEq, List.not_mem_nil,
    or_self, or_false] at hmem
  obtain ⟨rfl, rfl⟩ | ⟨rfl, rfl⟩ := hmem
  · exact ⟨1, rfl⟩
  · exact ⟨2, rfl⟩

end Hall

end Locator.Cache
