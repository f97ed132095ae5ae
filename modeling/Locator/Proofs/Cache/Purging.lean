import Locator.Proofs.Cache.Retention

/-!
# Purges between the sections of other calls

A purge leaves a slot alone that is locked, so it never takes one that somebody fetches into or
waits for. But a caller that has a handle and has not locked its slot yet counts for nothing, and
when a purge takes the slot away from it, a caller that comes later gets another one: both fetch.

* `slotOf?_kept_of_locked`: a locked slot stays, whatever the turn
* `disturbed_suppliers_overlap`: a disturbed caller and a later one fetch at the same time
* `undisturbed_iff`: what purges leave intact, and the exact condition
-/

namespace Locator.Cache.Hall

variable {α ε : Type} {hall : Hall α ε} {key : String} {id : SlotId}

/-- Neither a failed caller nor a purge forgets a locked slot. -/
theorem slotOf?_kept_of_locked (consistent : hall.Consistent) (turn : Turn)
    (leads : hall.cache.slotOf? key = some id) (hlocked : (hall.cache.slot id).locked = true) :
    (hall.turn turn).cache.slotOf? key = some id := by
  have goes := Goes.of_turn hall turn
  revert goes
  generalize hall.turn turn = next
  intro goes
  cases goes with
  | idle => exact leads
  | wait => exact leads
  | @advance position mover phase cache here advances =>
    obtain hkept | ⟨outcome, _, hphase, hholders, _⟩ | ⟨since, _, _, hstale, _⟩ :=
      advances.slotOf?_kept consistent.tidy leads
    · exact hkept
    · -- the caller that has the slot locked holds it as well
      obtain ⟨fetcher, hfetcher, hfetching⟩ := consistent.exists_fetching hlocked
      obtain ⟨j, hj⟩ := List.getElem?_of_mem hfetcher
      have hne : position ≠ j := by
        intro heq
        subst heq
        rw [here] at hj
        cases hj
        rw [hphase] at hfetching
        cases hfetching
      have hle := consistent.two_le_holders here hj hne
        (by rw [hphase]; exact List.mem_singleton_self id)
        (by rw [hfetching]; exact List.mem_singleton_self id)
      rw [hholders] at hle
      exact absurd hle (by decide)
    · -- a purge keeps what is locked
      rw [keepsInPurge, hlocked, Bool.true_or] at hstale
      cases hstale

/-- A caller that finds its slot free and without a fresh value locks it. -/
theorem turn_lock {position : Nat} {outcome : Outcome α ε}
    (holding : hall.callers[position]? = some ⟨.fetch key outcome, .holding id⟩)
    (unlocked : (hall.cache.slot id).locked = false)
    (stale : hall.cache.freshIn? id hall.now = none) :
    hall.turn (.caller position) = { hall with
      cache := hall.cache.lock id
      callers := hall.callers.set position ⟨.fetch key outcome, .fetching id⟩ } := by
  apply turn_caller holding
  simp [Call.advance, unlocked, stale]

/-- A caller whose key leads nowhere gets a new slot, and locks it in its next turn. -/
theorem run_take_lock (tidy : hall.cache.Tidy) {position : Nat} {outcome : Outcome α ε}
    (outside : hall.callers[position]? = some ⟨.fetch key outcome, .outside⟩)
    (unknown : hall.cache.slotOf? key = none) :
    (hall.run [.caller position, .caller position]).callers =
      hall.callers.set position ⟨.fetch key outcome, .fetching hall.cache.slots.length⟩ := by
  have hlt := (List.getElem?_eq_some_iff.1 outside).1
  have hfst : (hall.cache.take key).1 = hall.cache.slots.length := by
    rw [take_fst, unknown]
    rfl
  -- the slot is a new one: empty, unlocked, held by this caller alone
  have hslot : (hall.cache.take key).2.slot hall.cache.slots.length = { holders := 1 } := by
    rw [slot_take tidy, hfst, if_pos rfl, slot_of_length_le (Nat.le_refl _)]
  have htake : hall.turn (.caller position) = { hall with
      cache := (hall.cache.take key).2
      callers := hall.callers.set position
        ⟨.fetch key outcome, .holding hall.cache.slots.length⟩ } := by
    apply turn_caller outside
    simp only [Call.advance, hfst]
  have holding : (hall.turn (.caller position)).callers[position]? =
      some ⟨.fetch key outcome, .holding hall.cache.slots.length⟩ := by
    rw [htake, List.getElem?_set_self hlt]
  change ((hall.turn (.caller position)).turn (.caller position)).callers = _
  rw [turn_lock holding (by rw [htake, hslot]) (by rw [htake, freshIn?, hslot]; rfl), htake]
  exact List.set_set _

/-- A purge takes the slot of a caller that is about to lock it; then this caller and one that comes
later fetch for the key at the same time. -/
theorem disturbed_suppliers_overlap (consistent : hall.Consistent) (punctual : hall.Punctual)
    {purger early late since : Nat} {outcome outcome' : Outcome α ε}
    (purging : hall.callers[purger]? = some ⟨.purge, .purging since⟩)
    (holding : hall.callers[early]? = some ⟨.fetch key outcome, .holding id⟩)
    (leads : hall.cache.slotOf? key = some id)
    (stale : hall.cache.keepsInPurge since id = false)
    (outside : hall.callers[late]? = some ⟨.fetch key outcome', .outside⟩) :
    ¬ (hall.run [.caller purger, .caller early, .caller late, .caller late]).Exclusive := by
  have hpe : purger ≠ early := by
    intro heq
    rw [← heq, purging] at holding
    exact nomatch holding
  have hpl : purger ≠ late := by
    intro heq
    rw [← heq, purging] at outside
    exact nomatch outside
  have hel : early ≠ late := by
    intro heq
    rw [← heq, holding] at outside
    exact nomatch outside
  obtain ⟨unlocked, hnone⟩ := keepsInPurge_eq_false_iff.1 stale
  have hsince := punctual _ (List.mem_of_getElem? purging) since rfl
  -- the purge takes the slot away
  have hpurge : hall.turn (.caller purger) = { hall with
      cache := (hall.cache.purge since).2
      callers := hall.callers.set purger _ } := turn_caller purging rfl
  have hgone : (hall.cache.purge since).2.slotOf? key = none := by
    rw [slotOf?_purge consistent.tidy, leads, Option.filter_some, stale]
    rfl
  -- the early caller locks it all the same
  have hearly : (hall.turn (.caller purger)).callers[early]? =
      some ⟨.fetch key outcome, .holding id⟩ := by
    rw [hpurge, List.getElem?_set_ne hpe, holding]
  have hlock := turn_lock hearly (by rw [hpurge, slot_purge, unlocked])
    (by rw [hpurge]; exact freshIn?_eq_none_of_le hsince hnone)
  -- and the late caller gets a new one
  have hlate : ((hall.turn (.caller purger)).turn (.caller early)).callers[late]? =
      some ⟨.fetch key outcome', .outside⟩ := by
    rw [hlock, List.getElem?_set_ne hel, hpurge, List.getElem?_set_ne hpl, outside]
  have hrun := run_take_lock
    ((consistent.goes (Goes.of_turn hall _)).goes (Goes.of_turn _ (.caller early))).tidy hlate
    (by rw [hlock, slotOf?_lock, hpurge, hgone])
  intro exclusive
  change (((hall.turn (.caller purger)).turn (.caller early)).run
    [.caller late, .caller late]).Exclusive at exclusive
  have hsecond := (congrArg (·[late]?) hrun).trans
    (List.getElem?_set_self (List.getElem?_eq_some_iff.1 hlate).1)
  refine hel (exclusive early late key outcome outcome' id _ ?_ hsecond)
  rw [hrun, List.getElem?_set_ne (Ne.symm hel), hlock,
    List.getElem?_set_self (List.getElem?_eq_some_iff.1 hearly).1]

/-- Callers that do anything, purges among it, in any order of turns. No turn takes a locked slot
from its key. Callers stay attached to their slots exactly as long as no purge disturbs one of them;
as long as that is so, no two suppliers of one key run at once, and a value that a fetch stores is
found until it is too old unless a failed caller forgets it. But once a purge takes the slot of a
caller that is about to lock it, two suppliers run at once as soon as somebody else comes in. -/
theorem undisturbed_iff (ttl : Duration) (calls : List (Call α ε)) (now : Nat)
    (past : List Turn) :
    let opening := Hall.opening ttl calls now
    let hall := opening.run past
    (∀ turn key id, hall.cache.slotOf? key = some id → (hall.cache.slot id).locked = true →
      (hall.turn turn).cache.slotOf? key = some id) ∧
    (opening.Along (fun before turn => (before.turn turn).Attached) past ↔
      opening.Along (fun before turn => ¬ before.Disturbs turn) past) ∧
    (opening.Along (fun before turn => ¬ before.Disturbs turn) past →
      hall.Exclusive ∧
      ∀ (position : Nat) key value id, hall.callers[position]? =
        some ⟨.fetch key (.value value), .fetching id⟩ →
        ∀ future, ((hall.turn (.caller position)).run future).now ≤ hall.now + ttl.toNanos →
          ((hall.turn (.caller position)).Along (fun before turn =>
              (before.turn turn).cache.get? key (before.turn turn).now = some value) future ↔
            (hall.turn (.caller position)).Along (fun before turn =>
              ¬ before.Forgets key turn) future)) ∧
    ∀ (purger early late since : Nat) key outcome outcome' id,
      hall.callers[purger]? = some ⟨.purge, .purging since⟩ →
      hall.callers[early]? = some ⟨.fetch key outcome, .holding id⟩ →
      hall.cache.slotOf? key = some id → hall.cache.keepsInPurge since id = false →
      hall.callers[late]? = some ⟨.fetch key outcome', .outside⟩ →
      ¬ (hall.run [.caller purger, .caller early, .caller late, .caller late]).Exclusive := by
  intro opening hall
  -- what every run keeps, whether or not it is disturbed
  have consistent : hall.Consistent := (Consistent.opening ttl calls now).run past
  have punctual : hall.Punctual := (Punctual.opening ttl calls now).run past
  have httl : hall.cache.ttl = ttl := ttl_run past
  refine ⟨fun turn key id => slotOf?_kept_of_locked consistent turn, ?_, ?_, ?_⟩
  · exact attached_throughout_iff (Consistent.opening ttl calls now)
      (Attached.opening ttl calls now) past
  · intro undisturbed
    have attached : hall.Attached :=
      (Attached.opening ttl calls now).run (Consistent.opening ttl calls now) undisturbed
    refine ⟨attached.exclusive consistent, ?_⟩
    intro position key value id fetching future within
    -- a caller that fetches is attached, so the value is stored where its key leads
    have leads := attached _ (List.mem_of_getElem? fetching) key id rfl
    exact (Retains.of_record consistent punctual fetching leads (httl.symm ▸ within)).found_iff
  · intro purger early late since key outcome outcome' id purging holding leads stale outside
    exact disturbed_suppliers_overlap consistent punctual purging holding leads stale outside

/-- A purge comes between the first and the second section of a fetch. If somebody else comes in,
two suppliers of one key run at the same time; if nobody does, the value is stored all the same and
no lookup finds it. -/
theorem purge_splits_fetches :
    let calls : List (Call Nat String) := [.fetch "k" (.value 1), .purge, .fetch "k" (.value 2)]
    let purged := (Hall.opening (.ofSeconds 60) calls 0).run ([0, 1, 1, 0].map Turn.caller)
    let both := purged.run ([2, 2].map Turn.caller)
    let stored := purged.turn (.caller 0)
    both.callers[0]? = some ⟨.fetch "k" (.value 1), .fetching 0⟩ ∧
      both.callers[2]? = some ⟨.fetch "k" (.value 2), .fetching 1⟩ ∧
      stored.callers[0]? = some ⟨.fetch "k" (.value 1), .leaving [0] (.fetched (.value 1))⟩ ∧
      stored.cache.get? "k" stored.now = none := by
  decide

end Locator.Cache.Hall
