import Locator.Proofs.Cache.Attachment

/-!
# What becomes of a stored value

A fetch stored a value in the slot of its key. Until the value gets too old nobody fetches into the
slot again and no purge takes it, so everybody who comes later finds it there (`Keeps`). One thing
can go wrong: a caller that failed in the same slot before, and unlocked it, forgets the slot only
now, and looks at who holds the slot but not at what is in it (`Forgets`).

* `Keeps.goes`: nobody but a forgetful caller takes a fresh value away
* `Retains.found_iff`: a value is found at every moment exactly as long as nobody forgets its slot
* `Retains.finds`: who comes in meanwhile is given the value and runs no supplier
* `Retains.along_not_forgets`: only a failure from before can cost it
* `found_iff_not_forgotten`: all this for any value that a fetch stores
-/

namespace Locator.Cache

variable {α ε : Type}

/-- A call that asks for the value of a key. -/
def Call.Wants (call : Call α ε) (key : String) : Prop :=
  match call with
  | .fetch name _ | .get name => name = key
  | .size | .purge => False

/-- The phases of a caller that finds a value in a slot, from its coming in to its reply. -/
def Phase.Finds (id : SlotId) (value : α) : Phase α ε → Prop
  | .outside => True
  | .holding other => other = id
  | .leaving _ reply | .finished reply => reply = .hit value ∨ reply = .got (some value)
  | _ => False

/-- Who finds a value runs no supplier, and has no other reply. -/
theorem Phase.Finds.spec {phase : Phase α ε} {id : SlotId} {value : α}
    (finds : phase.Finds id value) :
    phase.hasRun = false ∧
      ∀ reply, phase.reply? = some reply → reply = .hit value ∨ reply = .got (some value) := by
  cases phase with
  | outside | holding other => exact ⟨rfl, fun _ hreply => nomatch hreply⟩
  | leaving held reply | finished reply =>
    refine ⟨?_, fun other hreply => Option.some.inj hreply ▸ finds⟩
    obtain rfl | rfl := finds <;> rfl
  | _ => exact nomatch finds

namespace Hall

variable {hall next : Hall α ε} {turn : Turn} {key : String} {id : SlotId} {entry : Entry α}

/-- A caller that failed takes its turn and will forget the slot of the key, because nobody else
holds it. -/
def Forgets (key : String) (hall : Hall α ε) (turn : Turn) : Prop :=
  ∃ position outcome id, turn = .caller position ∧
    hall.callers[position]? = some ⟨.fetch key outcome, .failed id⟩ ∧
    hall.cache.slotOf? key = some id ∧ (hall.cache.slot id).holders = 1

/-- A purge goes by a moment that is not in the future. -/
def Punctual (hall : Hall α ε) : Prop :=
  ∀ caller ∈ hall.callers, ∀ since, caller.phase = .purging since → since ≤ hall.now

theorem Punctual.goes (goes : Goes hall turn next) (punctual : hall.Punctual) :
    next.Punctual := by
  cases goes with
  | idle => exact punctual
  | wait =>
    intro caller hcaller since hphase
    exact Nat.le_add_right_of_le (punctual caller hcaller since hphase)
  | @advance position mover phase cache here advances =>
    intro caller hcaller since hphase
    cases List.mem_or_eq_of_mem_set hcaller with
    | inl hother => exact punctual caller hother since hphase
    | inr heq =>
      subst heq
      obtain ⟨call, before⟩ := mover
      cases hphase
      cases advances
      exact Nat.le_refl _

theorem Punctual.run (punctual : hall.Punctual) (schedule : List Turn) :
    (hall.run schedule).Punctual :=
  run_invariant Punctual (fun _ _ _ goes => Punctual.goes goes) punctual schedule

theorem Punctual.opening (ttl : Duration) (calls : List (Call α ε)) (now : Nat) :
    (Hall.opening ttl calls now).Punctual := by
  intro caller hcaller since hphase
  obtain ⟨call, _, rfl⟩ := List.mem_map.1 hcaller
  exact nomatch hphase

/-- The key leads to a slot that holds the entry and that nobody fetches into. -/
structure Keeps (hall : Hall α ε) (key : String) (id : SlotId) (entry : Entry α) : Prop where
  leads : hall.cache.slotOf? key = some id
  entry_eq : (hall.cache.slot id).entry = some entry
  unlocked : (hall.cache.slot id).locked = false

namespace Keeps

theorem freshIn? (keeps : hall.Keeps key id entry) {now : Nat}
    (fresh : entry.isFresh hall.cache.ttl now = true) :
    hall.cache.freshIn? id now = some entry.value := by
  rw [Cache.freshIn?, keeps.entry_eq, Option.filter_some, if_pos fresh]
  rfl

theorem not_mem_locks (keeps : hall.Keeps key id entry) (consistent : hall.Consistent)
    {caller : Caller α ε} (h : caller ∈ hall.callers) : id ∉ caller.phase.locks := by
  intro hlock
  have hlocked := (consistent.backs h).locked hlock
  rw [keeps.unlocked] at hlocked
  exact nomatch hlocked

/-- Nobody but a forgetful caller takes a fresh value away: fetches find it and do not lock the
slot, other failed callers leave the slot alone, and so does a purge. -/
theorem goes (goes : Goes hall turn next) (consistent : hall.Consistent)
    (punctual : hall.Punctual) (unforgotten : ¬ hall.Forgets key turn)
    (fresh : entry.isFresh hall.cache.ttl hall.now = true) (keeps : hall.Keeps key id entry) :
    next.Keeps key id entry := by
  cases goes with
  | idle => exact keeps
  | wait => exact ⟨keeps.leads, keeps.entry_eq, keeps.unlocked⟩
  | @advance position mover phase cache here advances =>
    have hmover := List.mem_of_getElem? here
    have backs := consistent.backs hmover
    have hlocks := keeps.not_mem_locks consistent hmover
    refine ⟨?_, ?_, ?_⟩
    · obtain hkept | ⟨outcome, hcall, hphase, hholders, _⟩ | ⟨since, _, hphase, hstale, _⟩ :=
        advances.slotOf?_kept consistent.tidy keeps.leads
      · exact hkept
      · -- the caller that failed is the forgetful one
        have hfailed : hall.callers[position]? = some ⟨.fetch key outcome, .failed id⟩ := by
          rw [here, ← hcall, ← hphase]
        exact absurd ⟨position, outcome, id, rfl, hfailed, keeps.leads, hholders⟩ unforgotten
      · -- a value fresh now was fresh when the purge read the clock
        have hsince := isFresh_of_le (punctual mover hmover since hphase) fresh
        rw [keepsInPurge, keeps.freshIn? hsince, Option.isSome_some, Bool.or_true] at hstale
        cases hstale
    · exact (advances.entry_eq consistent.tidy backs hlocks).trans keeps.entry_eq
    · -- nobody had it locked and nobody locks it now
      have balance := advances.locked_balance consistent.tidy backs id
      have hafter : id ∉ phase.locks := by
        intro hlock
        have hstale := advances.stale_of_locks hlock
        rw [keeps.freshIn? fresh] at hstale
        cases hstale
      rw [keeps.unlocked, List.count_eq_zero.2 hlocks, List.count_eq_zero.2 hafter] at balance
      exact Bool.toNat_eq_zero.1 balance

theorem get?_eq (keeps : hall.Keeps key id entry) {now : Nat}
    (fresh : entry.isFresh hall.cache.ttl now = true) :
    hall.cache.get? key now = some entry.value := by
  rw [get?_of_slotOf? keeps.leads, keeps.freshIn? fresh]

/-- What a fetch stored in the slot of its key is kept there to begin with. -/
theorem of_record (consistent : hall.Consistent) {position : Nat} {value : α}
    (fetching : hall.callers[position]? = some ⟨.fetch key (.value value), .fetching id⟩)
    (leads : hall.cache.slotOf? key = some id) :
    (hall.turn (.caller position)).Keeps key id ⟨value, hall.now⟩ := by
  have backs := consistent.backs (List.mem_of_getElem? fetching)
  -- the section that records stores the value with the time and unlocks the slot
  have hslot : (hall.cache.record id (.value value : Outcome α ε) hall.now).slot id =
      { hall.cache.slot id with entry := some ⟨value, hall.now⟩, locked := false } := by
    rw [slot_record (backs.lt_length (List.mem_singleton_self id)), if_pos rfl]
    rfl
  have hafter : hall.turn (.caller position) = { hall with
      cache := hall.cache.record id (.value value : Outcome α ε) hall.now
      callers := hall.callers.set position _ } := turn_caller fetching rfl
  rw [hafter]
  refine ⟨?_, ?_, ?_⟩
  · rw [slotOf?_record, leads]
  · rw [hslot]
  · rw [hslot]

end Keeps

/-- Nobody finds a value any more whose slot was just forgotten. -/
theorem Forgets.get?_eq_none (forgets : hall.Forgets key turn) (now : Nat) :
    (hall.turn turn).cache.get? key now = none := by
  obtain ⟨position, outcome, id, rfl, here, leads, hholders⟩ := forgets
  have hafter : hall.turn (.caller position) = { hall with
      cache := hall.cache.release key id
      callers := hall.callers.set position _ } := turn_caller here rfl
  apply get?_eq_none_of_slotOf?
  rw [hafter, slotOf?_release, if_pos ⟨rfl, leads, hholders⟩]

namespace Keeps

/-- A caller that wants the key finds the value in the slot, whatever its next section is. -/
theorem finds_advances {now : Nat} {call : Call α ε} {phase phase' : Phase α ε} {cache : Cache α}
    (advances : Advances now call phase hall.cache phase' cache)
    (fresh : entry.isFresh hall.cache.ttl now = true) (wants : call.Wants key)
    (keeps : hall.Keeps key id entry) (finds : phase.Finds id entry.value) :
    phase'.Finds id entry.value := by
  have hfresh := keeps.freshIn? fresh
  cases advances with
  | @take _ name outcome =>
    have hname : name = key := wants
    subst hname
    change (hall.cache.take name).1 = id
    rw [take_fst, keeps.leads]
    rfl
  | hit _ found =>
    cases finds
    rw [hfresh] at found
    cases found
    exact .inl rfl
  | lock _ stale =>
    -- nobody fetches while the value is fresh
    cases finds
    rw [hfresh] at stale
    exact nomatch stale
  | @miss _ name unknown =>
    have hname : name = key := wants
    rw [hname, keeps.leads] at unknown
    exact nomatch unknown
  | @hold _ name other known =>
    have hname : name = key := wants
    rw [hname, keeps.leads] at known
    cases known
    rfl
  | look =>
    cases finds
    exact .inr (by rw [hfresh])
  | drop | finish => exact finds
  | holdAll | readClock => exact nomatch wants
  | _ =>
    -- no other section is on the way to a value
    exact nomatch finds

theorem finds_goes (keeps : hall.Keeps key id entry) (goes : Goes hall turn next)
    (fresh : entry.isFresh hall.cache.ttl hall.now = true) {position : Nat} {call : Call α ε}
    {phase : Phase α ε} (wants : call.Wants key)
    (here : hall.callers[position]? = some ⟨call, phase⟩) (finds : phase.Finds id entry.value) :
    ∃ phase', next.callers[position]? = some ⟨call, phase'⟩ ∧ phase'.Finds id entry.value := by
  cases goes with
  | idle => exact ⟨phase, here, finds⟩
  | wait => exact ⟨phase, here, finds⟩
  | @advance mine mover phase' cache hmine advances =>
    -- either this caller moved, or it is where it was
    by_cases hpos : mine = position
    · subst hpos
      rw [here] at hmine
      cases hmine
      refine ⟨phase', ?_, keeps.finds_advances advances fresh wants finds⟩
      rw [List.getElem?_set_self (List.getElem?_eq_some_iff.1 here).1]
    · exact ⟨phase, by rw [List.getElem?_set_ne hpos, here], finds⟩

/-- While the entry is kept nobody fetches into its slot, so nobody fails there. -/
theorem unfailed_goes (keeps : hall.Keeps key id entry) (goes : Goes hall turn next)
    (consistent : hall.Consistent)
    (unfailed : ∀ caller ∈ hall.callers, caller.phase ≠ .failed id) :
    ∀ caller ∈ next.callers, caller.phase ≠ .failed id := by
  cases goes with
  | idle => exact unfailed
  | wait => exact unfailed
  | @advance position mover phase cache here advances =>
    intro caller hcaller
    cases List.mem_or_eq_of_mem_set hcaller with
    | inl hother => exact unfailed caller hother
    | inr heq =>
      subst heq
      intro hphase
      simp only at hphase
      subst hphase
      -- it would have failed out of fetching, but nobody fetches into a slot that is kept
      have hlocks := keeps.not_mem_locks consistent (List.mem_of_getElem? here)
      rw [advances.fetching_of_failed] at hlocks
      exact hlocks (List.mem_singleton_self id)

end Keeps

/-! ## Until the value is too old -/

/-- The hall keeps the entry, which will be fresh still at the end of the schedule. -/
structure Retains (hall : Hall α ε) (key : String) (id : SlotId) (entry : Entry α)
    (schedule : List Turn) : Prop where
  consistent : hall.Consistent
  punctual : hall.Punctual
  keeps : hall.Keeps key id entry
  fresh : entry.isFresh hall.cache.ttl (hall.run schedule).now = true

namespace Retains

variable {schedule rest : List Turn}

theorem fresh_now (retains : hall.Retains key id entry schedule) :
    entry.isFresh hall.cache.ttl hall.now = true :=
  isFresh_of_le (now_le_run schedule) retains.fresh

/-- A turn that does not forget the slot leaves it as it is for the turns to come. -/
theorem tail (retains : hall.Retains key id entry (turn :: rest))
    (unforgotten : ¬ hall.Forgets key turn) :
    (hall.turn turn).Retains key id entry rest where
  consistent := retains.consistent.goes (Goes.of_turn hall turn)
  punctual := retains.punctual.goes (Goes.of_turn hall turn)
  keeps := retains.keeps.goes (Goes.of_turn hall turn) retains.consistent retains.punctual
    unforgotten retains.fresh_now
  fresh := by
    have httl : (hall.turn turn).cache.ttl = hall.cache.ttl := ttl_run [turn]
    rw [httl]
    exact retains.fresh

/-- A value is found at every moment exactly as long as nobody forgets its slot. -/
theorem found_iff (retains : hall.Retains key id entry schedule) :
    hall.Along (fun before turn =>
        (before.turn turn).cache.get? key (before.turn turn).now = some entry.value) schedule ↔
      hall.Along (fun before turn => ¬ before.Forgets key turn) schedule := by
  -- along the schedule, `Retains` being what a turn that does not forget the key hands on
  induction schedule generalizing hall with
  | nil => exact Iff.rfl
  | cons turn rest ih =>
    by_cases hforgets : hall.Forgets key turn
    · constructor
      · intro ⟨hturn, _⟩
        have hfound : (hall.turn turn).cache.get? key (hall.turn turn).now = some entry.value :=
          hturn
        rw [hforgets.get?_eq_none] at hfound
        exact nomatch hfound
      · intro ⟨hturn, _⟩
        exact absurd hforgets hturn
    · -- nobody forgets it in this turn, so it is still there for the next one
      have after := retains.tail hforgets
      have hiff := ih after
      exact ⟨fun hfound => ⟨hforgets, hiff.1 hfound.2⟩,
        fun hkept => ⟨after.keeps.get?_eq after.fresh_now, hiff.2 hkept.2⟩⟩

/-- Who comes in while the value is there finds it, unless somebody forgets the slot. -/
theorem finds (retains : hall.Retains key id entry schedule)
    (unforgotten : hall.Along (fun before turn => ¬ before.Forgets key turn) schedule)
    {position : Nat} {call : Call α ε} {phase : Phase α ε} (wants : call.Wants key)
    (here : hall.callers[position]? = some ⟨call, phase⟩) (finds : phase.Finds id entry.value) :
    ∃ phase', (hall.run schedule).callers[position]? = some ⟨call, phase'⟩ ∧
      phase'.Finds id entry.value := by
  induction schedule generalizing hall phase with
  | nil => exact ⟨phase, here, finds⟩
  | cons turn rest ih =>
    obtain ⟨hturn, hrest⟩ := unforgotten
    obtain ⟨phase', hthere, hfinds⟩ := retains.keeps.finds_goes (Goes.of_turn hall turn)
      retains.fresh_now wants here finds
    exact ih (retains.tail hturn) hrest hthere hfinds

/-- Only a failure from before the value was stored can cost it. -/
theorem along_not_forgets (retains : hall.Retains key id entry schedule)
    (unfailed : ∀ caller ∈ hall.callers, caller.phase ≠ .failed id) :
    hall.Along (fun before turn => ¬ before.Forgets key turn) schedule := by
  induction schedule generalizing hall with
  | nil => trivial
  | cons turn rest ih =>
    have hforgets : ¬ hall.Forgets key turn := by
      rintro ⟨position, outcome, other, rfl, here, leads, _⟩
      rw [retains.keeps.leads] at leads
      cases leads
      exact unfailed _ (List.mem_of_getElem? here) rfl
    exact ⟨hforgets, ih (retains.tail hforgets)
      (retains.keeps.unfailed_goes (Goes.of_turn hall turn) retains.consistent unfailed)⟩

/-- What a fetch stores in the slot of its key is retained from then on. -/
theorem of_record (consistent : hall.Consistent) (punctual : hall.Punctual) {position : Nat}
    {value : α}
    (fetching : hall.callers[position]? = some ⟨.fetch key (.value value), .fetching id⟩)
    (leads : hall.cache.slotOf? key = some id)
    (within : ((hall.turn (.caller position)).run schedule).now ≤
      hall.now + hall.cache.ttl.toNanos) :
    (hall.turn (.caller position)).Retains key id ⟨value, hall.now⟩ schedule where
  consistent := consistent.goes (Goes.of_turn hall _)
  punctual := punctual.goes (Goes.of_turn hall _)
  keeps := Keeps.of_record consistent fetching leads
  fresh := by
    have httl : (hall.turn (.caller position)).cache.ttl = hall.cache.ttl :=
      ttl_run [.caller position]
    rw [httl]
    exact decide_eq_true (Nat.sub_le_iff_le_add'.2 within)

end Retains

/-- A fetch stores a value, and nobody purges. At every moment until the value is too old a lookup
finds it, exactly as long as no caller that failed before forgets the slot. As long as this goes
well, everybody who comes in is given the value and runs no supplier; and it does go well if nobody
who failed in the slot is still to forget it when the value is stored. -/
theorem found_iff_not_forgotten (ttl : Duration) (calls : List (Call α ε)) (now : Nat)
    (past future : List Turn) {position : Nat} {value : α} (noPurge : .purge ∉ calls)
    (reached : (Hall.opening ttl calls now).run past = hall)
    (fetching : hall.callers[position]? = some ⟨.fetch key (.value value), .fetching id⟩)
    (within : ((hall.turn (.caller position)).run future).now ≤ hall.now + ttl.toNanos) :
    let stored := hall.turn (.caller position)
    (stored.Along (fun before turn =>
        (before.turn turn).cache.get? key (before.turn turn).now = some value) future ↔
      stored.Along (fun before turn => ¬ before.Forgets key turn) future) ∧
    (stored.Along (fun before turn => ¬ before.Forgets key turn) future →
      ∀ (other : Nat) call, stored.callers[other]? = some ⟨call, .outside⟩ → call.Wants key →
        ∃ phase, (stored.run future).callers[other]? = some ⟨call, phase⟩ ∧
          phase.hasRun = false ∧
          ∀ reply, phase.reply? = some reply → reply = .hit value ∨ reply = .got (some value)) ∧
    ((∀ caller ∈ stored.callers, caller.phase ≠ .failed id) →
      stored.Along (fun before turn => ¬ before.Forgets key turn) future) := by
  intro stored
  have consistent := (Consistent.opening ttl calls now).run past
  have punctual := (Punctual.opening ttl calls now).run past
  -- without purges every caller is attached, so the slot fetched into is the one of the key
  have attached : ((Hall.opening ttl calls now).run past).Attached := by
    refine (Attached.opening ttl calls now).run (Consistent.opening ttl calls now)
      (along_not_disturbs ?_ past)
    rw [calls_opening]
    exact noPurge
  have httl : ((Hall.opening ttl calls now).run past).cache.ttl = ttl := ttl_run past
  rw [reached] at consistent punctual attached httl
  have leads := attached _ (List.mem_of_getElem? fetching) key id rfl
  have retains : stored.Retains key id ⟨value, hall.now⟩ future :=
    Retains.of_record consistent punctual fetching leads (httl.symm ▸ within)
  refine ⟨retains.found_iff, ?_, retains.along_not_forgets⟩
  intro unforgotten other call here wants
  obtain ⟨phase, hthere, hfinds⟩ := retains.finds unforgotten wants here trivial
  exact ⟨phase, hthere, hfinds.spec⟩

/-- A caller that failed forgets the slot after a second one stored a value there. -/
theorem late_failure_forgets :
    let calls : List (Call Nat String) :=
      [.fetch "k" (.error "lost"), .fetch "k" (.value 1), .get "k"]
    let hall := (Hall.opening (.ofSeconds 60) calls 0).run ([0, 0, 0, 1, 1].map Turn.caller)
    let future := [1, 1, 0].map Turn.caller
    .purge ∉ calls ∧ hall.callers[1]? = some ⟨.fetch "k" (.value 1), .fetching 0⟩ ∧
      ((hall.turn (.caller 1)).run future).now ≤ hall.now + (Duration.ofSeconds 60).toNanos ∧
      ¬ (hall.turn (.caller 1)).Along (fun before turn => ¬ before.Forgets "k" turn) future := by
  intro calls hall future
  have noPurge : .purge ∉ calls := by decide
  have fetching : hall.callers[1]? = some ⟨.fetch "k" (.value 1), .fetching 0⟩ := by decide
  have within : ((hall.turn (.caller 1)).run future).now ≤
      hall.now + (Duration.ofSeconds 60).toNanos := by decide
  refine ⟨noPurge, fetching, within, ?_⟩
  intro unforgotten
  have found := (found_iff_not_forgotten (.ofSeconds 60) calls 0 _ future noPurge rfl fetching
    within).1.2 unforgotten
  exact absurd found (by decide)

/-- Then the value is lost: a lookup that starts after it was returned, at the same moment even,
does not find it. -/
theorem late_failure_loses_value :
    let calls : List (Call Nat String) :=
      [.fetch "k" (.error "lost"), .fetch "k" (.value 1), .get "k"]
    let returned := (Hall.opening (.ofSeconds 60) calls 0).run
      ([0, 0, 0, 1, 1, 1, 1, 1].map Turn.caller)
    returned.callers[1]? = some ⟨.fetch "k" (.value 1), .finished (.fetched (.value 1))⟩ ∧
      returned.callers[2]? = some ⟨.get "k", .outside⟩ ∧
      (returned.run ([0, 2].map Turn.caller)).callers[2]? =
        some ⟨.get "k", .finished (.got none)⟩ ∧
      (returned.run ([0, 2].map Turn.caller)).now = 0 := by
  decide

end Hall

end Locator.Cache
