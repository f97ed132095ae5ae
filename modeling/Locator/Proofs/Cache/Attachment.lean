import Locator.Proofs.Cache.Hall

/-!
# Callers and the slots of their keys

A caller that found the slot of its key should fetch into that slot, or find the value there, as
long as it has not passed it. `Attached` says that the key of every such caller still leads to the
slot the caller holds. A failed caller cannot break this, because it forgets a slot only when
nobody else holds it. A purge can, because it does not count handles (`Disturbs`).

* `attached_throughout_iff`: callers stay attached exactly as long as no purge disturbs one
* `Attached.exclusive`: of attached callers at most one fetches for a key
* `along_not_disturbs`: nobody is disturbed where nobody purges
-/

namespace Locator.Cache

variable {α ε : Type}

/-- The key and the slot of a caller that has a handle and has not passed its fetch, or its look at
the value, yet. -/
def Caller.seeks? (caller : Caller α ε) : Option (String × SlotId) :=
  match caller.call, caller.phase with
  | .fetch key _, .holding id | .fetch key _, .fetching id | .get key, .holding id => some (key, id)
  | _, _ => none

theorem Caller.mem_handles_of_seeks? {caller : Caller α ε} {key : String} {id : SlotId}
    (h : caller.seeks? = some (key, id)) : id ∈ caller.phase.handles := by
  obtain ⟨call, phase⟩ := caller
  unfold seeks? at h
  split at h <;> simp_all [Phase.handles]

/-- A caller seeks the slot it sought before, or the one that its key has now. -/
theorem Advances.slotOf?_of_seeks? {now : Nat} {call : Call α ε} {phase phase' : Phase α ε}
    {cache cache' : Cache α} (h : Advances now call phase cache phase' cache')
    (before : ∀ key id, (Caller.mk call phase).seeks? = some (key, id) →
      cache.slotOf? key = some id) {key : String} {id : SlotId}
    (hseeks : (Caller.mk call phase').seeks? = some (key, id)) : cache'.slotOf? key = some id := by
  -- a caller comes to seek a slot by taking it or by finding it, and goes on seeking it under its
  -- lock
  cases h with
  | take =>
    cases hseeks
    rw [slotOf?_take, if_pos rfl]
  | lock =>
    cases hseeks
    exact before _ _ rfl
  | hold known =>
    cases hseeks
    exact known
  | drop | finish => cases call <;> exact nomatch hseeks
  | _ => exact nomatch hseeks

namespace Hall

variable {hall next : Hall α ε} {turn : Turn}

/-- The key of every caller that seeks a slot leads to that slot. -/
def Attached (hall : Hall α ε) : Prop :=
  ∀ caller ∈ hall.callers, ∀ key id, caller.seeks? = some (key, id) →
    hall.cache.slotOf? key = some id

/-- A purge takes its turn and will forget the slot that somebody seeks: the slot is not locked yet
and held no fresh value when the purge read the clock. -/
def Disturbs (hall : Hall α ε) (turn : Turn) : Prop :=
  ∃ position since, turn = .caller position ∧
    hall.callers[position]? = some ⟨.purge, .purging since⟩ ∧
    ∃ caller ∈ hall.callers, ∃ key id, caller.seeks? = some (key, id) ∧
      hall.cache.slotOf? key = some id ∧ hall.cache.keepsInPurge since id = false

theorem Attached.opening (ttl : Duration) (calls : List (Call α ε)) (now : Nat) :
    (Hall.opening ttl calls now).Attached := by
  intro caller hcaller key id hseeks
  obtain ⟨call, _, rfl⟩ := List.mem_map.1 hcaller
  cases call <;> exact nomatch hseeks

/-- Whoever moves, callers stay attached unless a purge disturbs one. That a failed caller does not
forget the slot of another one rests on the count of handles. -/
theorem Attached.goes (goes : Goes hall turn next) (consistent : hall.Consistent)
    (undisturbed : ¬ hall.Disturbs turn) (attached : hall.Attached) : next.Attached := by
  cases goes with
  | idle => exact attached
  | wait => exact attached
  | @advance position mover phase cache here advances =>
    have hmover := List.mem_of_getElem? here
    intro caller hcaller key id hseeks
    obtain ⟨j, hj⟩ := List.getElem?_of_mem hcaller
    by_cases hpos : position = j
    · -- the one who moved: its new slot is the one its key has now
      subst hpos
      rw [List.getElem?_set_self (List.getElem?_eq_some_iff.1 here).1] at hj
      cases hj
      exact advances.slotOf?_of_seeks? (attached mover hmover) hseeks
    · -- somebody else: its key may have lost the slot meanwhile
      rw [List.getElem?_set_ne hpos] at hj
      have hother := List.mem_of_getElem? hj
      have hkey := attached caller hother key id hseeks
      obtain hkept | ⟨outcome, _, hphase, hholders, _⟩ | ⟨since, hcall, hphase, hstale, _⟩ :=
        advances.slotOf?_kept consistent.tidy hkey
      · exact hkept
      · -- a failed caller forgets only what it holds alone, and here two hold the slot
        have hhandle : id ∈ mover.phase.handles := by rw [hphase]; exact List.mem_singleton_self id
        have hle := consistent.two_le_holders here hj hpos hhandle
          (Caller.mem_handles_of_seeks? hseeks)
        rw [hholders] at hle
        exact absurd hle (by decide)
      · -- a purge does not ask who holds the slot
        have hpurge : hall.callers[position]? = some ⟨.purge, .purging since⟩ := by
          rw [here, ← hcall, ← hphase]
        exact absurd ⟨position, since, rfl, hpurge, caller, hother, key, id, hseeks, hkey, hstale⟩
          undisturbed

/-- A purge that disturbs a caller leaves it with a slot that its key does not lead to. -/
theorem Disturbs.not_attached (consistent : hall.Consistent) (disturbs : hall.Disturbs turn) :
    ¬ (hall.turn turn).Attached := by
  obtain ⟨position, since, rfl, here, caller, hcaller, key, id, hseeks, hkey, hstale⟩ := disturbs
  have hafter : hall.turn (.caller position) = { hall with
      cache := (hall.cache.purge since).2
      callers := hall.callers.set position _ } := turn_caller here rfl
  rw [hafter]
  intro attached
  obtain ⟨j, hj⟩ := List.getElem?_of_mem hcaller
  -- who purges seeks nothing, so the caller it disturbs is another one
  have hne : position ≠ j := by
    intro heq
    subst heq
    rw [here] at hj
    cases hj
    exact nomatch hseeks
  have hsame := attached caller
    (List.mem_of_getElem? ((List.getElem?_set_ne hne).trans hj)) key id hseeks
  rw [slotOf?_purge consistent.tidy, hkey, Option.filter_some, hstale] at hsame
  exact nomatch hsame

/-- Callers are attached at every moment of a run exactly when no purge disturbs one. -/
theorem attached_throughout_iff (consistent : hall.Consistent) (attached : hall.Attached)
    (schedule : List Turn) :
    hall.Along (fun before turn => (before.turn turn).Attached) schedule ↔
      hall.Along (fun before turn => ¬ before.Disturbs turn) schedule := by
  induction schedule generalizing hall with
  | nil => exact Iff.rfl
  | cons turn rest ih =>
    have goes := Goes.of_turn hall turn
    -- one turn keeps callers attached unless it disturbs them, and the rest starts from there
    have hstep : (hall.turn turn).Attached ↔ ¬ hall.Disturbs turn :=
      ⟨fun after disturbs => disturbs.not_attached consistent after,
        fun undisturbed => attached.goes goes consistent undisturbed⟩
    constructor
    · intro ⟨hturn, hrest⟩
      exact ⟨hstep.1 hturn, (ih (consistent.goes goes) hturn).1 hrest⟩
    · intro ⟨hturn, hrest⟩
      have after := hstep.2 hturn
      exact ⟨after, (ih (consistent.goes goes) after).2 hrest⟩

theorem Attached.run (consistent : hall.Consistent) (attached : hall.Attached)
    {schedule : List Turn}
    (undisturbed : hall.Along (fun before turn => ¬ before.Disturbs turn) schedule) :
    (hall.run schedule).Attached := by
  have both : (hall.run schedule).Consistent ∧ (hall.run schedule).Attached := by
    refine run_induction (fun after => after.Consistent ∧ after.Attached) ?_ undisturbed
      ⟨consistent, attached⟩
    intro before turn after goes hturn ⟨hconsistent, hattached⟩
    exact ⟨hconsistent.goes goes, hattached.goes goes hconsistent hturn⟩
  exact both.2

/-- Where nobody purges, nobody is disturbed. -/
theorem along_not_disturbs (noPurge : .purge ∉ hall.callers.map Caller.call)
    (schedule : List Turn) :
    hall.Along (fun before turn => ¬ before.Disturbs turn) schedule := by
  refine Along.of_invariant (fun after => .purge ∉ after.callers.map Caller.call) ?_ ?_ noPurge
    schedule
  · intro before turn after goes hbefore
    rwa [goes.calls_eq]
  · rintro before turn hbefore ⟨position, since, rfl, here, _⟩
    exact hbefore (List.mem_map_of_mem (List.mem_of_getElem? here))

/-! ## One fetch at a time -/

/-- No two callers run the supplier of one key at the same time. -/
def Exclusive (hall : Hall α ε) : Prop :=
  ∀ (i j : Nat) key outcome outcome' id id',
    hall.callers[i]? = some ⟨.fetch key outcome, .fetching id⟩ →
      hall.callers[j]? = some ⟨.fetch key outcome', .fetching id'⟩ → i = j

/-- Attached callers who fetch for one key have locked one slot, so they are one. -/
theorem Attached.exclusive (consistent : hall.Consistent) (attached : hall.Attached) :
    hall.Exclusive := by
  intro i j key outcome outcome' id id' hi hj
  have hid := attached _ (List.mem_of_getElem? hi) key id rfl
  have hid' := attached _ (List.mem_of_getElem? hj) key id' rfl
  rw [hid] at hid'
  cases hid'
  exact consistent.alone hi hj (List.mem_singleton_self id) (List.mem_singleton_self id)

end Hall

end Locator.Cache
