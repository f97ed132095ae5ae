import Locator.Proofs.Cache.Sections

/-!
# What every run of a hall keeps

The handles and the locks of all callers together are exactly those the cache counts
(`Consistent`). This holds at the opening and after every turn, whoever takes it and whatever it
wants, so it holds after every run.

* `Goes.of_turn`: the three things a turn can be
* `run_induction`: what every turn keeps, every run keeps
* `Consistent.run`: the books are balanced after any run
* `Consistent.alone`, `Consistent.two_le_holders`: what can be read off them
* `somebody_moves`: as long as somebody has not finished, somebody can move
* `exists_ended`: every run can be continued until everybody has finished
-/

namespace Locator.Cache

variable {α ε : Type}

/-! ## Counting over callers -/

/-- What the phases of the callers weigh together. -/
def total (weight : Phase α ε → Nat) : List (Caller α ε) → Nat
  | [] => 0
  | caller :: rest => weight caller.phase + total weight rest

/-- How often a slot stands in the lists that the phases of the callers give. -/
def tally (list : Phase α ε → List SlotId) (callers : List (Caller α ε)) (id : SlotId) : Nat :=
  (callers.flatMap fun caller => list caller.phase).count id

section

variable {callers : List (Caller α ε)} {caller other : Caller α ε} {i j : Nat}
  (list : Phase α ε → List SlotId) (id : SlotId)

theorem total_cons (weight : Phase α ε → Nat) :
    total weight (caller :: callers) = weight caller.phase + total weight callers :=
  rfl

/-- When one caller moves on, its own weight changes and nothing else. -/
theorem total_set (weight : Phase α ε → Nat) (next : Caller α ε) (h : callers[i]? = some caller) :
    total weight (callers.set i next) + weight caller.phase =
      total weight callers + weight next.phase := by
  induction callers generalizing i with
  | nil => simp at h
  | cons head rest ih =>
    cases i with
    | zero =>
      simp only [List.getElem?_cons_zero, Option.some.injEq] at h
      subst h
      rw [List.set_cons_zero, total_cons, total_cons]
      omega
    | succ i =>
      have hrest := ih (List.getElem?_cons_succ.symm.trans h)
      rw [List.set_cons_succ, total_cons, total_cons]
      omega

theorem tally_cons : tally list (caller :: callers) id =
    (list caller.phase).count id + tally list callers id := by
  rw [tally, List.flatMap_cons, List.count_append]
  rfl

theorem tally_eq_total :
    tally list callers id = total (fun phase => (list phase).count id) callers := by
  induction callers with
  | nil => rfl
  | cons head rest ih => rw [tally_cons, total_cons, ih]

/-- When one caller moves on, its own share of the tally changes and nothing else. -/
theorem tally_set (next : Caller α ε) (h : callers[i]? = some caller) :
    tally list (callers.set i next) id + (list caller.phase).count id =
      tally list callers id + (list next.phase).count id := by
  rw [tally_eq_total, tally_eq_total]
  exact total_set _ next h

theorem count_le_tally (h : caller ∈ callers) :
    (list caller.phase).count id ≤ tally list callers id := by
  obtain ⟨before, after, rfl⟩ := List.append_of_mem h
  rw [tally, List.flatMap_append, List.flatMap_cons, List.count_append, List.count_append]
  omega

/-- Two callers count twice. -/
theorem count_add_count_le_tally (hi : callers[i]? = some caller)
    (hj : callers[j]? = some other) (hne : i ≠ j) :
    (list caller.phase).count id + (list other.phase).count id ≤ tally list callers id := by
  -- one of the two comes first; the other counts in what is behind it
  induction callers generalizing i j with
  | nil => simp at hi
  | cons head rest ih =>
    rw [tally_cons]
    cases i with
    | zero =>
      cases j with
      | zero => exact absurd rfl hne
      | succ j =>
        simp only [List.getElem?_cons_zero, Option.some.injEq, List.getElem?_cons_succ] at hi hj
        subst hi
        have hle := count_le_tally list id (List.mem_of_getElem? hj)
        omega
    | succ i =>
      cases j with
      | zero =>
        simp only [List.getElem?_cons_zero, Option.some.injEq, List.getElem?_cons_succ] at hi hj
        subst hj
        have hle := count_le_tally list id (List.mem_of_getElem? hi)
        omega
      | succ j =>
        simp only [List.getElem?_cons_succ] at hi hj
        have hrest := ih hi hj (fun heq => hne (by rw [heq]))
        omega

end

/-! ## Turns and runs -/

namespace Hall

variable {hall : Hall α ε} {turn : Turn}

/-- What a turn can do: nothing, let time pass, or take one caller through its next section. -/
inductive Goes (hall : Hall α ε) : Turn → Hall α ε → Prop where
  | idle {turn : Turn} : Goes hall turn hall
  | wait {nanos : Nat} : Goes hall (.wait nanos) { hall with now := hall.now + nanos }
  | advance {position : Nat} {caller : Caller α ε} {phase : Phase α ε} {cache : Cache α}
      (here : hall.callers[position]? = some caller)
      (advances : Advances hall.now caller.call caller.phase hall.cache phase cache) :
      Goes hall (.caller position)
        { hall with cache, callers := hall.callers.set position { caller with phase } }

theorem Goes.of_turn (hall : Hall α ε) (turn : Turn) : Goes hall turn (hall.turn turn) := by
  cases turn with
  | wait nanos => exact .wait
  | caller position =>
    simp only [Hall.turn, move]
    split
    · exact .idle
    · rename_i caller here
      split
      · exact .idle
      · rename_i phase cache hadvance
        exact .advance here (Advances.of_advance hadvance)

/-- The turn of a caller that can move. -/
theorem turn_caller {position : Nat} {caller : Caller α ε} {phase : Phase α ε} {cache : Cache α}
    (here : hall.callers[position]? = some caller)
    (moves : caller.call.advance hall.cache hall.now caller.phase = some (phase, cache)) :
    hall.turn (.caller position) =
      { hall with cache, callers := hall.callers.set position { caller with phase } } := by
  simp only [Hall.turn, move, here, moves]

/-- Something holds of every turn of a schedule and of the hall it is taken in. -/
def Along (P : Hall α ε → Turn → Prop) : Hall α ε → List Turn → Prop
  | _, [] => True
  | hall, turn :: schedule => P hall turn ∧ Along P (hall.turn turn) schedule

instance Along.instDecidable {P : Hall α ε → Turn → Prop} [∀ hall turn, Decidable (P hall turn)] :
    ∀ (hall : Hall α ε) (schedule : List Turn), Decidable (Along P hall schedule)
  | _, [] => .isTrue trivial
  | hall, turn :: schedule =>
    @instDecidableAnd _ _ _ (Along.instDecidable (hall.turn turn) schedule)

/-- What every turn of a schedule keeps, the whole run keeps. -/
theorem run_induction (Inv : Hall α ε → Prop) {P : Hall α ε → Turn → Prop}
    (step : ∀ hall turn next, Goes hall turn next → P hall turn → Inv hall → Inv next)
    {schedule : List Turn} (along : Along P hall schedule) (inv : Inv hall) :
    Inv (hall.run schedule) := by
  -- from the front, as a run takes its turns: the rest runs from the hall behind the first turn
  induction schedule generalizing hall with
  | nil => exact inv
  | cons turn rest ih =>
    obtain ⟨hturn, hrest⟩ := along
    exact ih hrest (step hall turn _ (Goes.of_turn hall turn) hturn inv)

/-- What no turn breaks, no run breaks. -/
theorem run_invariant (Inv : Hall α ε → Prop)
    (step : ∀ hall turn next, Goes hall turn next → Inv hall → Inv next) (inv : Inv hall)
    (schedule : List Turn) : Inv (hall.run schedule) := by
  induction schedule generalizing hall with
  | nil => exact inv
  | cons turn rest ih => exact ih (step hall turn _ (Goes.of_turn hall turn) inv)

/-- What follows from something that no turn breaks holds all along. -/
theorem Along.of_invariant (Inv : Hall α ε → Prop) {P : Hall α ε → Turn → Prop}
    (step : ∀ hall turn next, Goes hall turn next → Inv hall → Inv next)
    (follows : ∀ hall turn, Inv hall → P hall turn) (inv : Inv hall) (schedule : List Turn) :
    Along P hall schedule := by
  induction schedule generalizing hall with
  | nil => trivial
  | cons turn rest ih =>
    exact ⟨follows hall turn inv, ih (step hall turn _ (Goes.of_turn hall turn) inv)⟩

/-- The calls are what they were, whatever happens. -/
theorem Goes.calls_eq {next : Hall α ε} (goes : Goes hall turn next) :
    next.callers.map Caller.call = hall.callers.map Caller.call := by
  cases goes with
  | idle => rfl
  | wait => rfl
  | advance here _ =>
    -- the caller is set back with the call it had
    obtain ⟨hlt, rfl⟩ := List.getElem?_eq_some_iff.1 here
    rw [List.map_set]
    have hset := List.set_getElem_self ((List.length_map Caller.call).symm ▸ hlt)
    rwa [List.getElem_map] at hset

theorem calls_opening (ttl : Duration) (calls : List (Call α ε)) (now : Nat) :
    (Hall.opening ttl calls now).callers.map Caller.call = calls := by
  simp [Hall.opening, Function.comp_def]

theorem now_le_run (schedule : List Turn) : hall.now ≤ (hall.run schedule).now := by
  refine run_invariant (fun after => hall.now ≤ after.now) ?_ (Nat.le_refl _) schedule
  intro before turn after goes hbefore
  cases goes with
  | wait => exact Nat.le_add_right_of_le hbefore
  | _ => exact hbefore

theorem ttl_run (schedule : List Turn) : (hall.run schedule).cache.ttl = hall.cache.ttl := by
  refine run_invariant (fun after => after.cache.ttl = hall.cache.ttl) ?_ rfl schedule
  intro before turn after goes hbefore
  cases goes with
  | advance _ advances => exact advances.ttl_eq.trans hbefore
  | _ => exact hbefore

/-! ## The books -/

theorem tally_opening (list : Phase α ε → List SlotId) (id : SlotId) {ttl : Duration}
    {calls : List (Call α ε)} {now : Nat} (h : list .outside = []) :
    tally list (Hall.opening ttl calls now).callers id = 0 := by
  rw [tally, List.count_eq_zero, List.mem_flatMap]
  intro ⟨caller, hcaller, hid⟩
  obtain ⟨call, _, rfl⟩ := List.mem_map.1 hcaller
  rw [h] at hid
  exact nomatch hid

/-- The cache counts exactly the handles and the locks that the callers have. -/
structure Consistent (hall : Hall α ε) : Prop where
  tidy : hall.cache.Tidy
  holders_eq : ∀ id, (hall.cache.slot id).holders = tally Phase.handles hall.callers id
  locked_eq : ∀ id, (hall.cache.slot id).locked.toNat = tally Phase.locks hall.callers id

namespace Consistent

variable {next : Hall α ε} {caller other : Caller α ε} {i j : Nat} {id : SlotId}

theorem backs (consistent : hall.Consistent) (h : caller ∈ hall.callers) :
    Backs hall.cache caller.phase where
  handles_le id := by
    rw [consistent.holders_eq]
    exact count_le_tally Phase.handles id h
  locks_le id := by
    rw [consistent.locked_eq]
    exact count_le_tally Phase.locks id h

/-- Whoever moves, the books stay balanced. -/
theorem goes (goes : Goes hall turn next) (consistent : hall.Consistent) : next.Consistent := by
  cases goes with
  | idle => exact consistent
  | wait => exact ⟨consistent.tidy, consistent.holders_eq, consistent.locked_eq⟩
  | @advance position caller phase cache here advances =>
    have backs := consistent.backs (List.mem_of_getElem? here)
    -- what the section does to the count is what it does to the share of the one who moves
    refine ⟨advances.tidy consistent.tidy, fun id => ?_, fun id => ?_⟩
    · have balance := advances.holders_balance consistent.tidy backs id
      have hset := tally_set Phase.handles id { caller with phase } here
      have heq := consistent.holders_eq id
      simp only at hset ⊢
      omega
    · have balance := advances.locked_balance consistent.tidy backs id
      have hset := tally_set Phase.locks id { caller with phase } here
      have heq := consistent.locked_eq id
      simp only at hset ⊢
      omega

theorem run (consistent : hall.Consistent) (schedule : List Turn) :
    (hall.run schedule).Consistent :=
  run_invariant Consistent (fun _ _ _ goes => Consistent.goes goes) consistent schedule

theorem opening (ttl : Duration) (calls : List (Call α ε)) (now : Nat) :
    (Hall.opening ttl calls now).Consistent where
  tidy := tidy_empty ttl
  holders_eq id := (tally_opening Phase.handles id rfl).symm
  locked_eq id := (tally_opening Phase.locks id rfl).symm

/-- No two callers fetch into one slot. -/
theorem alone (consistent : hall.Consistent) (hi : hall.callers[i]? = some caller)
    (hj : hall.callers[j]? = some other) (hcaller : id ∈ caller.phase.locks)
    (hother : id ∈ other.phase.locks) : i = j := by
  apply Decidable.byContradiction
  intro hne
  -- two locks would have to fit into one bit
  have hle := count_add_count_le_tally Phase.locks id hi hj hne
  have hpos := List.count_pos_iff.2 hcaller
  have hpos' := List.count_pos_iff.2 hother
  have heq := consistent.locked_eq id
  have hbool := Bool.toNat_le (hall.cache.slot id).locked
  omega

/-- Somebody who sees a second caller at its slot counts at least two. -/
theorem two_le_holders (consistent : hall.Consistent) (hi : hall.callers[i]? = some caller)
    (hj : hall.callers[j]? = some other) (hne : i ≠ j) (hcaller : id ∈ caller.phase.handles)
    (hother : id ∈ other.phase.handles) : 2 ≤ (hall.cache.slot id).holders := by
  have hle := count_add_count_le_tally Phase.handles id hi hj hne
  have hpos := List.count_pos_iff.2 hcaller
  have hpos' := List.count_pos_iff.2 hother
  rw [consistent.holders_eq]
  omega

/-- Behind a locked slot stands a caller who fetches into it. -/
theorem exists_fetching (consistent : hall.Consistent)
    (hlocked : (hall.cache.slot id).locked = true) :
    ∃ caller ∈ hall.callers, caller.phase = .fetching id := by
  have heq := consistent.locked_eq id
  have hpos : 0 < tally Phase.locks hall.callers id := by
    rw [← heq, hlocked]
    exact Nat.one_pos
  obtain ⟨caller, hcaller, hlock⟩ := List.mem_flatMap.1 (List.count_pos_iff.1 hpos)
  exact ⟨caller, hcaller, Phase.eq_fetching_of_mem_locks hlock⟩

end Consistent

/-! ## Nobody waits for ever -/

/-- Every caller is where its call can be. -/
def Fitting (hall : Hall α ε) : Prop :=
  ∀ caller ∈ hall.callers, caller.call.Fits caller.phase

theorem Fitting.goes {next : Hall α ε} (goes : Goes hall turn next) (fitting : hall.Fitting) :
    next.Fitting := by
  cases goes with
  | idle => exact fitting
  | wait => exact fitting
  | advance here advances =>
    intro other hother
    cases List.mem_or_eq_of_mem_set hother with
    | inl hmem => exact fitting other hmem
    | inr heq =>
      rw [heq]
      exact (fitting _ (List.mem_of_getElem? here)).advances advances

theorem Fitting.run (fitting : hall.Fitting) (schedule : List Turn) :
    (hall.run schedule).Fitting :=
  run_invariant Fitting (fun _ _ _ goes => Fitting.goes goes) fitting schedule

theorem Fitting.opening (ttl : Duration) (calls : List (Call α ε)) (now : Nat) :
    (Hall.opening ttl calls now).Fitting := by
  intro caller hcaller
  obtain ⟨call, _, rfl⟩ := List.mem_map.1 hcaller
  trivial

/-- As long as somebody has not finished, somebody can move: who waits does so for a caller that
is fetching, and who fetches need not wait. -/
theorem somebody_moves (consistent : hall.Consistent) (fitting : hall.Fitting)
    {waiting : Caller α ε} (hwaiting : waiting ∈ hall.callers)
    (unfinished : ∀ reply, waiting.phase ≠ .finished reply) :
    ∃ caller ∈ hall.callers,
      (caller.call.advance hall.cache hall.now caller.phase).isSome := by
  obtain ⟨reply, hreply⟩ | hmoves | ⟨id, hlocked⟩ :=
    (fitting waiting hwaiting).advance_cases hall.cache hall.now
  · exact absurd hreply (unfinished reply)
  · exact ⟨waiting, hwaiting, hmoves⟩
  -- it waits for a lock: then the one who has the lock can move
  · obtain ⟨fetcher, hfetcher, hphase⟩ := consistent.exists_fetching hlocked
    refine ⟨fetcher, hfetcher, ?_⟩
    have fits := fitting fetcher hfetcher
    rw [hphase] at fits ⊢
    obtain ⟨key, outcome, hcall⟩ := fits
    rw [hcall]
    cases outcome <;> rfl

end Hall

/-! ## All come to an end -/

/-- Whether a caller has still to come in. -/
def Phase.absence : Phase α ε → Nat
  | .outside => 1
  | _ => 0

/-- How many sections a caller that has come in has before it at most. Who is outside may be going
to count, and how many slots there will be to count is not known yet. -/
def Phase.effort : Phase α ε → Nat
  | .outside | .finished _ => 0
  | .purging _ => 1
  | .leaving held _ => held.length + 1
  | .failed _ => 3
  | .fetching _ => 4
  | .holding _ => 5
  | .counting held rest _ => rest.length + held.length + 2

/-- A caller comes in with its first section, and has less before it after every other one. -/
theorem Advances.effort_lt {now : Nat} {call : Call α ε} {phase phase' : Phase α ε}
    {cache cache' : Cache α} (advances : Advances now call phase cache phase' cache') :
    phase'.absence < phase.absence ∨
      phase'.absence = phase.absence ∧ phase'.effort < phase.effort := by
  cases advances with
  | take | miss | hold | holdAll | readClock => exact .inl Nat.one_pos
  | hit | lock | fail | record | release | look | purge | finish =>
    exact .inr ⟨rfl, by simp [Phase.effort]⟩
  | count | counted | drop =>
    refine .inr ⟨rfl, ?_⟩
    simp only [Phase.effort, List.length_cons, List.length_nil]
    omega

namespace Hall

variable {hall : Hall α ε}

/-- Everybody has finished. -/
def Ended (hall : Hall α ε) : Prop :=
  ∀ caller ∈ hall.callers, ∃ reply, caller.phase = .finished reply

/-- A caller that moves comes in, or has less before it, and all others are where they were. -/
theorem effort_move_lt {position : Nat} {caller : Caller α ε}
    {phase : Phase α ε} {cache : Cache α} (here : hall.callers[position]? = some caller)
    (advances : Advances hall.now caller.call caller.phase hall.cache phase cache) :
    let callers := hall.callers.set position { caller with phase }
    total Phase.absence callers < total Phase.absence hall.callers ∨
      total Phase.absence callers = total Phase.absence hall.callers ∧
        total Phase.effort callers < total Phase.effort hall.callers := by
  intro callers
  have habsence : total Phase.absence callers + caller.phase.absence =
      total Phase.absence hall.callers + phase.absence := total_set Phase.absence _ here
  have heffort : total Phase.effort callers + caller.phase.effort =
      total Phase.effort hall.callers + phase.effort := total_set Phase.effort _ here
  have hless := advances.effort_lt
  omega

/-- Every run can be continued until everybody has finished. -/
theorem exists_ended {hall : Hall α ε} (consistent : hall.Consistent) (fitting : hall.Fitting) :
    ∃ rest, (hall.run rest).Ended := by
  by_cases hended : hall.Ended
  · exact ⟨[], hended⟩
  · obtain ⟨waiting, hwaiting, hunfinished⟩ : ∃ caller ∈ hall.callers,
        ¬∃ reply, caller.phase = .finished reply := by
      simpa [Ended] using hended
    obtain ⟨caller, hcaller, hmoves⟩ := somebody_moves consistent fitting hwaiting
      fun reply hreply => hunfinished ⟨reply, hreply⟩
    obtain ⟨position, here⟩ := List.mem_iff_getElem?.1 hcaller
    obtain ⟨⟨phase, cache⟩, hadvance⟩ := Option.isSome_iff_exists.1 hmoves
    have advances := Advances.of_advance hadvance
    have hless := effort_move_lt here advances
    have goes := Goes.advance here advances
    obtain ⟨rest, hrest⟩ := exists_ended (consistent.goes goes) (fitting.goes goes)
    refine ⟨.caller position :: rest, ?_⟩
    rw [run, List.foldl_cons, turn_caller here hadvance]
    exact hrest
termination_by (total Phase.absence hall.callers, total Phase.effort hall.callers)
decreasing_by exact Prod.lex_def.2 hless

end Hall

end Locator.Cache
