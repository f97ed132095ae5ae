import Locator.Proofs.Http.Steps

/-!
# What every run of a lobby keeps

The lock is with one caller or with none, and whoever is about to build a client is alone in it, so
nothing can be built behind its back (`Orderly`). This holds at the opening and after every turn,
whoever takes it, so it holds after every run.

* `Goes.of_turn`: a turn does nothing, or takes one caller through its next step
* `run_invariant`: what no turn breaks, no run breaks
* `Orderly.run`: the lobby is in order after any run
* `Orderly.somebody_moves`, `effort_turn_lt`: as long as somebody has not ended, somebody can move,
  and every move leaves less to do
* `Orderly.exists_ended`: every run can be continued until all callers have ended
-/

namespace Locator.Http.Lobby

open Url (Address)

variable {lobby next : Lobby} {position other : Nat} {kind : ClientKind}

/-! ## Turns and runs -/

/-- What a turn can do. -/
inductive Goes (lobby : Lobby) (position : Nat) : Lobby → Prop where
  | idle : Goes lobby position lobby
  | advance {caller next : Caller} {reader : Reader} {records : List Log.Record}
      (here : lobby.callers[position]? = some caller)
      (advances : caller.Advances lobby.reader next reader records) :
      Goes lobby position
        { reader
          callers := lobby.callers.set position next
          records := lobby.records ++ records }

theorem Goes.of_turn (lobby : Lobby) (position : Nat) :
    Goes lobby position (lobby.turn position) := by
  unfold turn
  split
  · exact .idle
  · rename_i caller here
    split
    · exact .idle
    · rename_i next reader records hadvance
      exact .advance here (Caller.advances_of_advance hadvance)

/-- What no turn breaks, no run breaks. -/
theorem run_invariant (Inv : Lobby → Prop)
    (step : ∀ lobby position next, Goes lobby position next → Inv lobby → Inv next)
    (inv : Inv lobby) (schedule : List Nat) : Inv (lobby.run schedule) := by
  induction schedule generalizing lobby with
  | nil => exact inv
  | cons position rest ih => exact ih (step lobby position _ (Goes.of_turn lobby position) inv)

theorem run_append (lobby : Lobby) (earlier later : List Nat) :
    lobby.run (earlier ++ later) = (lobby.run earlier).run later :=
  List.foldl_append

/-- The reader is what it was, except for its clients. -/
theorem Goes.reader_eq (goes : Goes lobby position next) :
    ∃ clients, next.reader = { lobby.reader with clients } := by
  cases goes with
  | idle => exact ⟨lobby.reader.clients, rfl⟩
  | advance here advances =>
    obtain ⟨clients, hreader, -⟩ := advances.exists_clients
    exact ⟨clients, hreader⟩

theorem reader_run (schedule : List Nat) :
    ∃ clients, (lobby.run schedule).reader = { lobby.reader with clients } := by
  refine run_invariant (fun after => ∃ clients, after.reader = { lobby.reader with clients }) ?_
    ⟨lobby.reader.clients, rfl⟩ schedule
  intro before position after goes hbefore
  obtain ⟨clients, hclients⟩ := hbefore
  obtain ⟨later, hlater⟩ := goes.reader_eq
  exact ⟨later, by rw [hlater, hclients]⟩

/-- The URLs are what they were, whatever happens. -/
theorem Goes.urls_eq (goes : Goes lobby position next) :
    next.callers.map Caller.url = lobby.callers.map Caller.url := by
  cases goes with
  | idle => rfl
  | advance here advances =>
    obtain ⟨hlt, rfl⟩ := List.getElem?_eq_some_iff.1 here
    rw [List.map_set, advances.url_eq]
    have hset := List.set_getElem_self ((List.length_map Caller.url).symm ▸ hlt)
    rwa [List.getElem_map] at hset

theorem urls_run (schedule : List Nat) :
    (lobby.run schedule).callers.map Caller.url = lobby.callers.map Caller.url := by
  refine run_invariant (fun after => after.callers.map Caller.url = lobby.callers.map Caller.url)
    ?_ rfl schedule
  intro before position after goes hbefore
  exact goes.urls_eq.trans hbefore

theorem urls_opening (parse : Url.Parser) (timeout : Duration) (trustsAnyCertificate : Bool)
    (urls : List String) :
    (opening parse timeout trustsAnyCertificate urls).callers.map Caller.url = urls := by
  unfold opening
  rw [List.map_map]
  exact List.map_id urls

/-! ## Order -/

/-- The caller at a position has the lock. -/
def LockedBy (lobby : Lobby) (position : Nat) : Prop :=
  ∃ caller, lobby.callers[position]? = some caller ∧ caller.holdsLock = true

/-- One caller at most has the lock, and builds what is not there; and what is there was built once,
was reported once, and is wanted by somebody. -/
structure Orderly (lobby : Lobby) : Prop where
  lock : ∃ owner : Option Nat, lobby.reader.clients.locked = owner.isSome ∧
    ∀ position, lobby.LockedBy position ↔ owner = some position
  missing : ∀ (position : Nat) (caller : Caller) address kind,
    lobby.callers[position]? = some caller →
    caller.phase = .asking address { kind, stage := .building } →
    kind ∉ lobby.reader.clients.built
  nodup : lobby.reader.clients.built.Nodup
  fits : ∀ caller ∈ lobby.callers, caller.Fits lobby.reader
  wanted : ∀ kind ∈ lobby.reader.clients.built, ∃ (position : Nat) (caller : Caller),
    lobby.callers[position]? = some caller ∧ caller.kind? = some kind
  warned : lobby.records.count Clients.trustWarning =
    lobby.reader.clients.built.count .trusting

theorem lockedBy_iff {caller : Caller} (here : lobby.callers[position]? = some caller) :
    lobby.LockedBy position ↔ caller.holdsLock = true := by
  simp [LockedBy, here]

theorem getElem?_callers_set {caller moved : Caller}
    (here : lobby.callers[position]? = some caller) :
    (lobby.callers.set position moved)[other]? =
      if position = other then some moved else lobby.callers[other]? := by
  obtain ⟨hlt, -⟩ := List.getElem?_eq_some_iff.1 here
  rw [List.getElem?_set, if_pos hlt]

namespace Orderly

/-- Two callers cannot both have the lock. -/
theorem alone (orderly : lobby.Orderly) (h : lobby.LockedBy position)
    (hother : lobby.LockedBy other) : position = other := by
  obtain ⟨owner, -, howner⟩ := orderly.lock
  exact Option.some.inj (((howner position).1 h).symm.trans ((howner other).1 hother))

theorem opening (parse : Url.Parser) (timeout : Duration) (trustsAnyCertificate : Bool)
    (urls : List String) : (Lobby.opening parse timeout trustsAnyCertificate urls).Orderly := by
  have hphase : ∀ caller ∈ (Lobby.opening parse timeout trustsAnyCertificate urls).callers,
      caller.phase = .beginning := by
    intro caller hcaller
    obtain ⟨url, -, rfl⟩ := List.mem_map.1 hcaller
    rfl
  constructor
  case lock =>
    refine ⟨none, rfl, fun position => ⟨?_, fun h => by cases h⟩⟩
    rintro ⟨caller, here, hholds⟩
    rw [Caller.holdsLock, hphase caller (List.mem_of_getElem? here)] at hholds
    cases hholds
  case missing =>
    intro position caller address kind here hbuilding
    rw [hphase caller (List.mem_of_getElem? here)] at hbuilding
    cases hbuilding
  case nodup => exact List.nodup_nil
  case fits =>
    intro caller hcaller
    rw [Caller.Fits, hphase caller hcaller]
    trivial
  case wanted =>
    intro kind hkind
    cases hkind
  case warned => rfl

section

variable {caller moved : Caller} {reader : Reader} {records : List Log.Record}
  (orderly : lobby.Orderly) (here : lobby.callers[position]? = some caller)
  (advances : caller.Advances lobby.reader moved reader records)

include orderly here advances

theorem lock_advance :
    ∃ owner : Option Nat, reader.clients.locked = owner.isSome ∧ ∀ other,
      ({ reader, callers := lobby.callers.set position moved } : Lobby).LockedBy other ↔
        owner = some other := by
  obtain ⟨owner, hlocked, howner⟩ := orderly.lock
  have hmoved : ∀ other,
      ({ reader, callers := lobby.callers.set position moved } : Lobby).LockedBy other ↔
        if position = other then moved.holdsLock = true else owner = some other := by
    intro other
    rw [← howner]
    unfold LockedBy
    simp only [getElem?_callers_set here]
    split <;> simp
  have hcaller := (lockedBy_iff here).symm.trans (howner position)
  obtain ⟨hkeeps, hsame⟩ | ⟨-, hholds, hfree, hlater⟩ | ⟨hheld, hleaves, hlater⟩ :=
    advances.lock_cases
  · -- the lock stays where it is
    refine ⟨owner, hsame.trans hlocked, fun other => ?_⟩
    rw [hmoved, hkeeps, hcaller]
    split
    · next heq => rw [heq]
    · rfl
  · -- the lock was free, so nobody else has it now
    have hnone : owner = none := by
      rw [hlocked] at hfree
      simpa using hfree
    refine ⟨some position, hlater, fun other => ?_⟩
    rw [hmoved, hholds, hnone]
    split <;> simp_all
  · -- the only one who had the lock gives it back
    have hsome : owner = some position := hcaller.1 hheld
    refine ⟨none, hlater, fun other => ?_⟩
    rw [hmoved, hleaves, hsome]
    split <;> simp_all

/-- Nobody else is about to build while somebody builds. -/
theorem missing_advance {next : Caller} {address : Address} (hnext :
      (lobby.callers.set position moved)[other]? = some next)
    (hbuilding : next.phase = .asking address { kind, stage := .building }) :
    kind ∉ reader.clients.built := by
  rw [getElem?_callers_set here] at hnext
  split at hnext
  · -- the one who moved: it has just looked, with the lock in its hand
    cases hnext
    exact advances.missing_of_building hbuilding
  · next hne =>
    have hmissing := orderly.missing other next address kind hnext hbuilding
    obtain ⟨hbuilt, -⟩ | ⟨_, _, hmover, -⟩ := advances.built_cases
    · rwa [hbuilt]
    · -- both would have the lock
      have hthere : lobby.LockedBy position := (lockedBy_iff here).2 (by
        rw [Caller.holdsLock, hmover]
        rfl)
      have hthat : lobby.LockedBy other := (lockedBy_iff hnext).2 (by
        rw [Caller.holdsLock, hbuilding]
        rfl)
      exact absurd (orderly.alone hthere hthat) hne

theorem nodup_advance : reader.clients.built.Nodup := by
  obtain ⟨hbuilt, -⟩ | ⟨_, _, hbuilding, -, hbuilt, -⟩ := advances.built_cases
  · rw [hbuilt]
    exact orderly.nodup
  · -- what is built now was missing, since nobody could build it after the second look
    rw [hbuilt]
    exact List.nodup_cons.2 ⟨orderly.missing position caller _ _ here hbuilding, orderly.nodup⟩

theorem fits_advance {next : Caller} (hnext : next ∈ lobby.callers.set position moved) :
    next.Fits reader := by
  have hcaller := orderly.fits caller (List.mem_of_getElem? here)
  cases List.mem_or_eq_of_mem_set hnext with
  | inl hmem =>
    -- the others have not moved, and clients were added at most
    obtain ⟨clients, rfl, grows⟩ := advances.exists_clients
    exact (orderly.fits next hmem).grow grows
  | inr heq =>
    rw [heq]
    exact advances.fits hcaller

theorem wanted_advance (hkind : kind ∈ reader.clients.built) :
    ∃ (other : Nat) (next : Caller), (lobby.callers.set position moved)[other]? = some next ∧
      next.kind? = some kind := by
  -- a client that was there is wanted by the one who wanted it, and a new one by its builder
  have hold : kind ∈ lobby.reader.clients.built ∨ moved.kind? = some kind := by
    obtain ⟨hbuilt, -⟩ | ⟨_, _, -, hmoved, hbuilt, -⟩ := advances.built_cases
    · exact .inl (hbuilt ▸ hkind)
    · rw [hbuilt] at hkind
      obtain rfl | hmem := List.mem_cons.1 hkind
      · exact .inr hmoved
      · exact .inl hmem
  obtain hmem | hmoved := hold
  · obtain ⟨other, next, hnext, hwants⟩ := orderly.wanted kind hmem
    -- if it is the one who moves, it goes on to want the same client
    by_cases heq : position = other
    · subst heq
      obtain rfl := Option.some.inj (here.symm.trans hnext)
      refine ⟨position, moved, ?_, advances.kind?_eq hwants⟩
      rw [getElem?_callers_set here, if_pos rfl]
    · refine ⟨other, next, ?_, hwants⟩
      rw [getElem?_callers_set here, if_neg heq, hnext]
  · refine ⟨position, moved, ?_, hmoved⟩
    rw [getElem?_callers_set here, if_pos rfl]

omit here in
theorem warned_advance : (lobby.records ++ records).count Clients.trustWarning =
    reader.clients.built.count .trusting := by
  rw [List.count_append, orderly.warned]
  obtain ⟨hbuilt, hnone⟩ | ⟨_, kind, -, -, hbuilt, rfl⟩ := advances.built_cases
  · rw [hbuilt, hnone, Nat.add_zero]
  · have hcons : reader.clients.built = [kind] ++ lobby.reader.clients.built := hbuilt
    rw [hcons, List.count_append, Clients.count_buildRecords, Nat.add_comm]

end

/-- Whoever moves, the lobby stays in order. -/
theorem goes (goes : Goes lobby position next) (orderly : lobby.Orderly) : next.Orderly := by
  cases goes with
  | idle => exact orderly
  | advance here advances =>
    constructor
    case lock => exact orderly.lock_advance here advances
    case missing =>
      intro other next address kind hnext hbuilding
      exact orderly.missing_advance here advances hnext hbuilding
    case nodup => exact orderly.nodup_advance here advances
    case fits => exact fun next hnext => orderly.fits_advance here advances hnext
    case wanted => exact fun kind hkind => orderly.wanted_advance here advances hkind
    case warned => exact orderly.warned_advance advances

theorem run (orderly : lobby.Orderly) (schedule : List Nat) : (lobby.run schedule).Orderly :=
  run_invariant Orderly (fun _ _ _ goes => Orderly.goes goes) orderly schedule

end Orderly

/-! ## Nobody waits for ever -/

theorem turn_eq {caller moved : Caller} {reader : Reader} {records : List Log.Record}
    (here : lobby.callers[position]? = some caller)
    (moves : caller.advance lobby.reader = some (moved, reader, records)) :
    lobby.turn position =
      { reader
        callers := lobby.callers.set position moved
        records := lobby.records ++ records } := by
  simp only [turn, here, moves]

/-- As long as somebody has not ended, somebody can move: who waits does so for the one who has the
lock, and that one need not wait. -/
theorem Orderly.somebody_moves (orderly : lobby.Orderly) {waiting : Caller}
    (hwaiting : waiting ∈ lobby.callers) (hunended : ¬ waiting.Ended) :
    ∃ (position : Nat) (caller : Caller), lobby.callers[position]? = some caller ∧
      (caller.advance lobby.reader).isSome = true := by
  obtain ⟨position, hposition⟩ := List.mem_iff_getElem?.1 hwaiting
  cases hlocked : lobby.reader.clients.locked with
  | false => exact ⟨position, waiting, hposition, waiting.advance_isSome hunended (.inl hlocked)⟩
  | true =>
    -- the holder of the lock has not ended either, and waits for nobody
    obtain ⟨owner, howner, hholders⟩ := orderly.lock
    rw [hlocked] at howner
    obtain ⟨holder, hholder⟩ := Option.isSome_iff_exists.1 howner.symm
    obtain ⟨caller, here, hholds⟩ := (hholders holder).2 hholder
    exact ⟨holder, caller, here, caller.advance_isSome (Caller.not_ended_of_holdsLock hholds)
      (.inr hholds)⟩

/-- How many steps these callers together can take at most. -/
def effortOf (callers : List Caller) : Nat :=
  callers.foldr (fun caller rest => caller.effort + rest) 0

theorem effortOf_cons (caller : Caller) (rest : List Caller) :
    effortOf (caller :: rest) = caller.effort + effortOf rest := rfl

/-- How many steps are left for all callers together at most. -/
def effort (lobby : Lobby) : Nat :=
  effortOf lobby.callers

theorem effortOf_set_lt {callers : List Caller} {caller moved : Caller}
    (here : callers[position]? = some caller) (h : moved.effort < caller.effort) :
    effortOf (callers.set position moved) < effortOf callers := by
  induction callers generalizing position with
  | nil => cases here
  | cons first rest ih =>
    cases position with
    | zero =>
      obtain rfl : first = caller := Option.some.inj here
      rw [List.set_cons_zero, effortOf_cons, effortOf_cons]
      omega
    | succ position =>
      have hrest := ih (List.getElem?_cons_succ.symm.trans here)
      rw [List.set_cons_succ, effortOf_cons, effortOf_cons]
      omega

/-- Every move leaves less to do. -/
theorem effort_turn_lt {caller : Caller} (here : lobby.callers[position]? = some caller)
    (moves : (caller.advance lobby.reader).isSome = true) :
    (lobby.turn position).effort < lobby.effort := by
  obtain ⟨⟨moved, reader, records⟩, hadvance⟩ := Option.isSome_iff_exists.1 moves
  rw [turn_eq here hadvance]
  exact effortOf_set_lt here (Caller.advances_of_advance hadvance).effort_lt

/-- Every run can be continued until all callers have ended. -/
theorem Orderly.exists_ended (orderly : lobby.Orderly) :
    ∃ rest, ∀ caller ∈ (lobby.run rest).callers, caller.Ended := by
  -- on what is left to do: somebody moves as long as there is anything
  induction heffort : lobby.effort using Nat.strongRecOn generalizing lobby with
  | ind effort ih =>
    by_cases hended : ∀ caller ∈ lobby.callers, caller.Ended
    · exact ⟨[], hended⟩
    · obtain ⟨waiting, hwaiting, hunended⟩ : ∃ caller ∈ lobby.callers, ¬ caller.Ended := by
        simpa using hended
      obtain ⟨position, caller, here, moves⟩ := orderly.somebody_moves hwaiting hunended
      have hless := effort_turn_lt here moves
      rw [heffort] at hless
      obtain ⟨rest, hrest⟩ := ih _ hless (Orderly.goes (Goes.of_turn lobby position) orderly) rfl
      exact ⟨position :: rest, hrest⟩

end Locator.Http.Lobby
