import Locator.Proofs.Cache.History

/-!
# A cache answers from its history

A run of operations, nested as deep as it likes, is followed with its history. `Tracks` ties the
two together: every fetch under way keeps a slot of its own locked, that slot is the one of its key
exactly as long as the fetch is live, and a lookup finds exactly the standing entry, now and later.

* `Tracks.startFetch`, `Tracks.endFetch`: a fetch that comes in and ends keeps this, from one lemma
  for each of the facts about a fetch under way
* `Tracks.run`: every operation keeps this, together with all the operations inside it
* `cache_answers_from_history`: what a lookup and a fetch give at any moment of any run
-/

namespace Locator.Cache

variable {α ε : Type}

/-! ## Coming in -/

/-- A cache once a fetch for the key came in: its slot is held and locked. -/
def opened (cache : Cache α) (key : String) : Cache α :=
  (cache.take key).2.lock (cache.take key).1

section

variable {cache : Cache α} {key : String} {now : Nat}

theorem slotOf?_opened (k : String) :
    (cache.opened key).slotOf? k =
      if k = key then some (cache.take key).1 else cache.slotOf? k := by
  rw [opened, slotOf?_lock, slotOf?_take]

theorem slot_opened (tidy : cache.Tidy) (j : SlotId) :
    (cache.opened key).slot j =
      if j = (cache.take key).1 then
        { cache.slot j with holders := (cache.slot j).holders + 1, locked := true }
      else cache.slot j := by
  rw [opened, slot_lock (take_fst_lt tidy), slot_take tidy]
  split <;> rfl

@[simp] theorem ttl_opened : (cache.opened key).ttl = cache.ttl := ttl_take

theorem Tidy.opened (tidy : cache.Tidy) : (cache.opened key).Tidy :=
  tidy.take.modify _

theorem get?_opened (tidy : cache.Tidy) (k : String) :
    (cache.opened key).get? k now = cache.get? k now := by
  have htake : (cache.take key).2.get? k now = cache.get? k now := get?_take tidy k
  rw [← htake]
  refine get?_congr rfl ?_ rfl
  intro id _
  rw [entry_take tidy, slot_opened tidy]
  split <;> rfl

theorem locked_take (tidy : cache.Tidy) :
    ((cache.take key).2.slot (cache.take key).1).locked = cache.isBusy key := by
  rw [slot_take tidy, if_pos rfl, take_fst, isBusy]
  cases h : cache.slotOf? key with
  | none => simp [slot_of_length_le (Nat.le_refl _)]
  | some id => simp

theorem freshIn?_take (tidy : cache.Tidy) :
    (cache.take key).2.freshIn? (cache.take key).1 now = cache.get? key now := by
  have hslot : (cache.take key).2.slotOf? key = some (cache.take key).1 := by
    rw [slotOf?_take, if_pos rfl]
  have htake : (cache.take key).2.get? key now = cache.get? key now := get?_take tidy key
  rw [← htake, get?_of_slotOf? hslot]

/-- What a caller meets is decided by the lock of its slot and by what a lookup would give. -/
theorem enter_eq (tidy : cache.Tidy) :
    cache.enter key now =
      if cache.isBusy key then .blocked
      else match cache.get? key now with
        | some value => .fresh value ((cache.take key).2.drop (cache.take key).1)
        | none => .vacant (cache.take key).1 (cache.opened key) := by
  rw [← locked_take tidy, ← freshIn?_take tidy]
  rfl

end

/-! ## A cache and its history -/

/-- A fetch under way: its key, the slot it holds, and where in the history it started. -/
structure Frame where
  key : String
  id : SlotId
  start : Nat

/-- The session is what its history says, with these fetches under way. -/
structure Tracks (ttl : Duration) (history : List (Event α ε)) (session : Session α)
    (frames : List Frame) : Prop where
  ttl_eq : session.cache.ttl = ttl
  tidy : session.cache.Tidy
  coherent : Coherent history
  started : ∀ frame ∈ frames, history[frame.start]? = some (.started frame.key)
  ids_nodup : (frames.map Frame.id).Nodup
  /-- A fetch under way has its slot locked and is alone with it. -/
  slot_busy : ∀ frame ∈ frames,
    (session.cache.slot frame.id).locked = true ∧ (session.cache.slot frame.id).holders = 1
  slot_idle : ∀ id, id ∉ frames.map Frame.id →
    (session.cache.slot id).locked = false ∧ (session.cache.slot id).holders = 0
  key_of_slot : ∀ frame ∈ frames, ∀ key,
    session.cache.slotOf? key = some frame.id → key = frame.key
  live_iff : ∀ frame ∈ frames,
    isLive history frame.key frame.start = true ↔
      session.cache.slotOf? frame.key = some frame.id
  get?_eq : ∀ key later, session.now ≤ later →
    session.cache.get? key later =
      ((standing history key).filter (·.isFresh ttl later)).map (·.value)

namespace Tracks

variable {ttl : Duration} {history : List (Event α ε)} {session : Session α}
  {frames : List Frame} {frame : Frame} {key : String}

theorem empty (ttl : Duration) (now : Nat) :
    Tracks ttl ([] : List (Event α ε)) { cache := { ttl }, now } [] where
  ttl_eq := rfl
  tidy := tidy_empty ttl
  coherent := by intro _ _ _ hmem; cases hmem
  started := by simp
  ids_nodup := List.nodup_nil
  slot_busy := by simp
  slot_idle := by intro _ _; exact ⟨rfl, rfl⟩
  key_of_slot := by simp
  live_iff := by simp
  get?_eq := by intro _ _ _; rfl

theorem lt_length (tracks : Tracks ttl history session frames) (hframe : frame ∈ frames) :
    frame.id < session.cache.slots.length := by
  apply lt_length_of_holders_pos
  rw [(tracks.slot_busy frame hframe).2]
  exact Nat.one_pos

/-- A slot that is not locked belongs to no fetch under way. -/
theorem not_mem_of_not_locked (tracks : Tracks ttl history session frames) {id : SlotId}
    (h : (session.cache.slot id).locked = false) : id ∉ frames.map Frame.id := by
  intro hmem
  obtain ⟨frame, hframe, rfl⟩ := List.mem_map.1 hmem
  rw [(tracks.slot_busy frame hframe).1] at h
  exact Bool.noConfusion h

/-- A cache with the same keys and slots is tracked as well, at any later moment. -/
theorem congr (tracks : Tracks ttl history session frames) {after : Session α}
    (tidy : after.cache.Tidy) (httl : after.cache.ttl = session.cache.ttl)
    (hnow : session.now ≤ after.now)
    (hslotOf : ∀ key, after.cache.slotOf? key = session.cache.slotOf? key)
    (hslot : ∀ id, after.cache.slot id = session.cache.slot id) :
    Tracks ttl history after frames where
  ttl_eq := httl.trans tracks.ttl_eq
  tidy
  coherent := tracks.coherent
  started := tracks.started
  ids_nodup := tracks.ids_nodup
  slot_busy frame hframe := by rw [hslot]; exact tracks.slot_busy frame hframe
  slot_idle id hid := by rw [hslot]; exact tracks.slot_idle id hid
  key_of_slot frame hframe key := by rw [hslotOf]; exact tracks.key_of_slot frame hframe key
  live_iff frame hframe := by rw [hslotOf]; exact tracks.live_iff frame hframe
  get?_eq key later hle := by
    rw [get?_congr (hslotOf key) (fun id _ => by rw [hslot]) httl]
    exact tracks.get?_eq key later (Nat.le_trans hnow hle)

theorem start_lt (tracks : Tracks ttl history session frames) (hframe : frame ∈ frames) :
    frame.start < history.length :=
  (List.getElem?_eq_some_iff.1 (tracks.started frame hframe)).1

/-- A fetch under way started where it did, whatever happens next. -/
theorem started_append (tracks : Tracks ttl history session frames) (hframe : frame ∈ frames)
    (event : Event α ε) : (history ++ [event])[frame.start]? = some (.started frame.key) := by
  rw [List.getElem?_append_left (tracks.start_lt hframe)]
  exact tracks.started frame hframe

/-- A fetch under way stays as live as it was when nothing forgets its key. -/
theorem live_append (tracks : Tracks ttl history session frames) (hframe : frame ∈ frames)
    {event : Event α ε} (keeps : event.forgets frame.key = false) :
    isLive (history ++ [event]) frame.key frame.start = isLive history frame.key frame.start := by
  rw [isLive_append (tracks.start_lt hframe), keeps, Bool.not_false, Bool.and_true]

/-- A fetch under way is live at most for its own key. -/
theorem isLive_ne (tracks : Tracks ttl history session frames) (hframe : frame ∈ frames)
    (hkey : key ≠ frame.key) : isLive history key frame.start = false := by
  simp [isLive, tracks.started frame hframe, Event.starts, Ne.symm hkey]

/-- The key of a fetch that others could come in for leads elsewhere. -/
theorem slotOf?_ne_of_free (tracks : Tracks ttl history session frames) (hframe : frame ∈ frames)
    (free : session.cache.isBusy key = false) : session.cache.slotOf? key ≠ some frame.id := by
  intro hslotOf
  simp [isBusy, hslotOf, (tracks.slot_busy frame hframe).1] at free

/-! ### A supplier starts -/

/-- Whoever comes in for a free key gets a slot that nobody fetches into. -/
theorem take_fst_not_mem (tracks : Tracks ttl history session frames)
    (free : session.cache.isBusy key = false) :
    (session.cache.take key).1 ∉ frames.map Frame.id := by
  apply tracks.not_mem_of_not_locked
  rw [← free, ← locked_take tracks.tidy, slot_take tracks.tidy, if_pos rfl]

theorem id_ne_take_fst (tracks : Tracks ttl history session frames)
    (free : session.cache.isBusy key = false) (hframe : frame ∈ frames) :
    frame.id ≠ (session.cache.take key).1 := by
  intro heq
  exact tracks.take_fst_not_mem free (List.mem_map.2 ⟨frame, hframe, heq⟩)

/-- Who comes in changes nothing about which keys lead to the slots of fetches under way. -/
theorem slotOf?_opened_iff (tracks : Tracks ttl history session frames)
    (free : session.cache.isBusy key = false) (hframe : frame ∈ frames) {k : String} :
    (session.cache.opened key).slotOf? k = some frame.id ↔
      session.cache.slotOf? k = some frame.id := by
  rw [slotOf?_opened]
  split
  · -- the key that came in led elsewhere before, and does so now
    rename_i hkey
    rw [hkey]
    constructor
    · intro heq
      exact absurd (Option.some.inj heq).symm (tracks.id_ne_take_fst free hframe)
    · intro hslotOf
      exact absurd hslotOf (tracks.slotOf?_ne_of_free hframe free)
  · rfl

/-- A supplier starts: its fetch keeps a slot locked from now on. -/
theorem startFetch (tracks : Tracks ttl history session frames)
    (free : session.cache.isBusy key = false) :
    Tracks ttl (history ++ [.started key]) { session with cache := session.cache.opened key }
      (⟨key, (session.cache.take key).1, history.length⟩ :: frames) := by
  have tidy := tracks.tidy
  have hnew := tracks.take_fst_not_mem free
  -- each field about fetches is one about the new fetch and one about those under way before
  constructor
  case ttl_eq => exact ttl_opened.trans tracks.ttl_eq
  case tidy => exact tidy.opened
  case coherent => exact tracks.coherent.append (by simp)
  case started =>
    intro frame hframe
    cases List.mem_cons.1 hframe with
    | inl heq => simp [heq]
    | inr hmem => exact tracks.started_append hmem _
  case ids_nodup => exact List.nodup_cons.2 ⟨hnew, tracks.ids_nodup⟩
  case slot_busy =>
    intro frame hframe
    cases List.mem_cons.1 hframe with
    | inl heq =>
      rw [heq, slot_opened tidy, if_pos rfl]
      exact ⟨rfl, by simp [(tracks.slot_idle _ hnew).2]⟩
    | inr hmem =>
      rw [slot_opened tidy, if_neg (tracks.id_ne_take_fst free hmem)]
      exact tracks.slot_busy frame hmem
  case slot_idle =>
    intro id hid
    rw [List.map_cons, List.mem_cons, not_or] at hid
    rw [slot_opened tidy, if_neg hid.1]
    exact tracks.slot_idle id hid.2
  case key_of_slot =>
    intro frame hframe k hk
    cases List.mem_cons.1 hframe with
    | inl heq =>
      subst heq
      have hkey : (session.cache.opened key).slotOf? key = some (session.cache.take key).1 := by
        rw [slotOf?_opened, if_pos rfl]
      exact tidy.opened.key_unique hk hkey
    | inr hmem =>
      exact tracks.key_of_slot frame hmem k ((tracks.slotOf?_opened_iff free hmem).1 hk)
  case live_iff =>
    intro frame hframe
    cases List.mem_cons.1 hframe with
    | inl heq =>
      subst heq
      simp [isLive_append_started, slotOf?_opened]
    | inr hmem =>
      rw [tracks.live_append hmem Event.forgets_started, tracks.live_iff frame hmem,
        tracks.slotOf?_opened_iff free hmem]
  case get?_eq =>
    -- neither what is stored nor what stands has changed yet
    intro k later hle
    rw [get?_opened tidy, standing_append_started tracks.coherent]
    exact tracks.get?_eq k later hle

/-! ### A supplier ends -/

section

variable {other : Frame} (outcome : Outcome α ε)

/-- Two fetches under way hold two slots. -/
theorem id_ne_of_mem (tracks : Tracks ttl history session (frame :: frames))
    (hother : other ∈ frames) : other.id ≠ frame.id := by
  intro heq
  exact (List.nodup_cons.1 tracks.ids_nodup).1 (List.mem_map.2 ⟨other, hother, heq⟩)

/-- The fetch that ends may take its own key out of the index, and keys lead to the slots of all
others as before. -/
theorem slotOf?_settle_iff (tracks : Tracks ttl history session (frame :: frames))
    (hother : other ∈ frames) {k : String} :
    (session.cache.settle frame.key frame.id outcome session.now).slotOf? k = some other.id ↔
      session.cache.slotOf? k = some other.id := by
  have hself : frame ∈ frame :: frames := List.mem_cons_self
  rw [slotOf?_settle (tracks.lt_length hself) (tracks.slot_busy frame hself).2]
  split
  · -- the key is taken out, but it did not lead to the slot of the other fetch
    rename_i hgone
    rw [hgone.2.1, hgone.2.2]
    constructor
    · intro hnone
      exact nomatch hnone
    · intro heq
      exact absurd (Option.some.inj heq).symm (tracks.id_ne_of_mem hother)
  · rfl

/-- When a fetch ends, a lookup goes on to find what stands: a live fetch leaves its outcome in
both, and one that is not live in neither. -/
theorem get?_settle_eq (tracks : Tracks ttl history session (frame :: frames)) (k : String)
    {later : Nat} (hle : session.now ≤ later) :
    (session.cache.settle frame.key frame.id outcome session.now).get? k later =
      ((standing (history ++ [.ended frame.start outcome session.now]) k).filter
        (·.isFresh ttl later)).map (·.value) := by
  have hself : frame ∈ frame :: frames := List.mem_cons_self
  rw [get?_settle (tracks.lt_length hself) (tracks.slot_busy frame hself).2
    (tracks.key_of_slot frame hself), tracks.ttl_eq,
    standing_append_ended tracks.coherent (tracks.start_lt hself)]
  by_cases hkey : k = frame.key
  · subst hkey
    by_cases hlive : session.cache.slotOf? frame.key = some frame.id
    · -- live, so what it left is what a lookup gives now
      rw [if_pos ⟨rfl, hlive⟩, if_pos ((tracks.live_iff frame hself).2 hlive)]
      cases outcome with
      | aborted =>
        rw [Outcome.entryAfter, Outcome.entryAfter, ← tracks.get?_eq frame.key later hle,
          get?_of_slotOf? hlive, freshIn?, tracks.ttl_eq]
      | _ => rfl
    · -- invalidated or cleared meanwhile: nobody finds the slot it stored into
      have hdead := mt (tracks.live_iff frame hself).1 hlive
      rw [if_neg (fun hand => hlive hand.2), if_neg hdead]
      exact tracks.get?_eq frame.key later hle
  · -- another key: the fetch is not live for it, and does not touch its slot
    have hdead := tracks.isLive_ne hself hkey
    rw [if_neg (fun hand => hkey hand.1), hdead, if_neg Bool.false_ne_true]
    exact tracks.get?_eq k later hle

/-- A supplier ends: the innermost fetch records its outcome and lets its slot go. -/
theorem endFetch (tracks : Tracks ttl history session (frame :: frames)) :
    Tracks ttl (history ++ [.ended frame.start outcome session.now])
      { session with
        cache := session.cache.settle frame.key frame.id outcome session.now }
      frames := by
  have hself : frame ∈ frame :: frames := List.mem_cons_self
  have hlen := tracks.lt_length hself
  constructor
  case ttl_eq => exact (ttl_settle outcome).trans tracks.ttl_eq
  case tidy => exact tracks.tidy.settle outcome
  case coherent =>
    apply tracks.coherent.append
    intro start _ _ heq
    cases heq
    exact tracks.start_lt hself
  case started =>
    intro other hother
    exact tracks.started_append (List.mem_cons_of_mem frame hother) _
  case ids_nodup => exact (List.nodup_cons.1 tracks.ids_nodup).2
  case slot_busy =>
    intro other hother
    rw [slot_settle hlen, if_neg (tracks.id_ne_of_mem hother)]
    exact tracks.slot_busy other (List.mem_cons_of_mem frame hother)
  case slot_idle =>
    intro id hid
    rw [slot_settle hlen]
    split
    · -- the slot of the fetch itself, which held it alone
      rename_i heq
      rw [heq, (tracks.slot_busy frame hself).2]
      exact ⟨rfl, rfl⟩
    · rename_i hne
      apply tracks.slot_idle
      rw [List.map_cons, List.mem_cons, not_or]
      exact ⟨hne, hid⟩
  case key_of_slot =>
    intro other hother k hk
    exact tracks.key_of_slot other (List.mem_cons_of_mem frame hother) k
      ((tracks.slotOf?_settle_iff outcome hother).1 hk)
  case live_iff =>
    intro other hother
    have hmem := List.mem_cons_of_mem frame hother
    rw [tracks.live_append hmem Event.forgets_ended, tracks.live_iff other hmem,
      tracks.slotOf?_settle_iff outcome hother]
  case get?_eq =>
    intro k later hle
    exact tracks.get?_settle_eq outcome k hle

end

/-! ### The other operations -/

/-- A fresh value is handed out: its slot is held for a moment only. -/
theorem hit (tracks : Tracks ttl history session frames) {value : α}
    (h : session.cache.get? key session.now = some value) :
    Tracks ttl history
      { session with
        cache := (session.cache.take key).2.drop (session.cache.take key).1 }
      frames := by
  -- the key has a slot, so `take` makes none and `drop` gives back what `take` took
  obtain ⟨id, hid, -⟩ := Option.bind_eq_some_iff.1 h
  exact tracks.congr (tracks.tidy.take.modify _) ttl_take (Nat.le_refl _) (slotOf?_take_drop hid)
    (slot_take_drop tracks.tidy)

theorem invalidate (tracks : Tracks ttl history session frames) :
    Tracks ttl (history ++ [.invalidated key])
      { session with cache := (session.cache.invalidate key).2 } frames where
  ttl_eq := ttl_invalidate.trans tracks.ttl_eq
  tidy := tracks.tidy.invalidate
  coherent := tracks.coherent.append (by simp)
  started _ hframe := tracks.started_append hframe _
  ids_nodup := tracks.ids_nodup
  slot_busy frame hframe := by
    rw [slot_invalidate]
    exact tracks.slot_busy frame hframe
  slot_idle id hid := by
    rw [slot_invalidate]
    exact tracks.slot_idle id hid
  key_of_slot frame hframe k hk := by
    rw [slotOf?_invalidate] at hk
    split at hk
    · exact nomatch hk
    · exact tracks.key_of_slot frame hframe k hk
  live_iff frame hframe := by
    rw [isLive_append (tracks.start_lt hframe), Event.forgets_invalidated, slotOf?_invalidate]
    by_cases hkey : frame.key = key
    · simp [hkey]
    · have hbeq : (key == frame.key) = false := by simpa using Ne.symm hkey
      rw [if_neg hkey, hbeq, Bool.not_false, Bool.and_true]
      exact tracks.live_iff frame hframe
  get?_eq k later hle := by
    rw [standing_append_invalidated tracks.coherent]
    -- the lookup and the history forget the same key
    by_cases hkey : k = key
    · rw [if_pos hkey, get?_eq_none_of_slotOf? (by rw [slotOf?_invalidate, if_pos hkey])]
      rfl
    · rw [if_neg hkey, ← tracks.get?_eq k later hle]
      exact get?_congr (by rw [slotOf?_invalidate, if_neg hkey]) (fun _ _ => by simp) (by simp)

theorem clear (tracks : Tracks ttl history session frames) :
    Tracks ttl (history ++ [.cleared]) { session with cache := session.cache.clear } frames where
  ttl_eq := tracks.ttl_eq
  tidy := tracks.tidy.of_sublist (List.nil_sublist _) (Nat.le_refl _)
  coherent := tracks.coherent.append (by simp)
  started _ hframe := tracks.started_append hframe _
  ids_nodup := tracks.ids_nodup
  slot_busy := tracks.slot_busy
  slot_idle := tracks.slot_idle
  key_of_slot _ _ _ hk := nomatch hk
  live_iff frame hframe := by
    rw [isLive_append (tracks.start_lt hframe), Event.forgets_cleared, Bool.not_true,
      Bool.and_false]
    exact ⟨(nomatch ·), (nomatch ·)⟩
  get?_eq k later _ := by
    rw [standing_append_forgets tracks.coherent rfl]
    rfl

theorem purge (tracks : Tracks ttl history session frames) :
    Tracks ttl history { session with cache := (session.cache.purge session.now).2 } frames where
  ttl_eq := tracks.ttl_eq
  tidy := tracks.tidy.purge
  coherent := tracks.coherent
  started := tracks.started
  ids_nodup := tracks.ids_nodup
  slot_busy := tracks.slot_busy
  slot_idle := tracks.slot_idle
  key_of_slot frame hframe k hk := by
    rw [slotOf?_purge tracks.tidy] at hk
    exact tracks.key_of_slot frame hframe k (Option.filter_eq_some_iff.1 hk).1
  live_iff frame hframe := by
    -- a locked slot is kept
    have hkeep : session.cache.keepsInPurge session.now frame.id = true := by
      simp [keepsInPurge, (tracks.slot_busy frame hframe).1]
    rw [tracks.live_iff frame hframe, slotOf?_purge tracks.tidy, Option.filter_eq_some_iff]
    simp [hkeep]
  get?_eq k later hle := by
    rw [get?_purge tracks.tidy hle]
    exact tracks.get?_eq k later hle

theorem wait (tracks : Tracks ttl history session frames) (nanos : Nat) :
    Tracks ttl history { session with now := session.now + nanos } frames :=
  tracks.congr tracks.tidy rfl (Nat.le_add_right _ _) (fun _ => rfl) (fun _ => rfl)

end Tracks

/-! ## Whole runs -/

mutual

/-- Every operation keeps a session tracked, whatever its supplier does before it ends. -/
theorem Tracks.run {ttl : Duration} {history : List (Event α ε)} {session : Session α}
    {frames : List Frame} (tracks : Tracks ttl history session frames) :
    (step : Step α ε) →
      Tracks ttl (history ++ Step.events session history.length step)
        (Step.run session step).2 frames
  | .fetch key inner outcome => by
    rw [Step.events, Step.run, enter_eq tracks.tidy]
    cases free : session.cache.isBusy key with
    | true => simpa using tracks
    | false =>
      cases hget : session.cache.get? key session.now with
      | some value => simpa using tracks.hit hget
      | none =>
        -- the supplier runs with one more fetch under way than before
        have opened := tracks.startFetch free
        have within := Tracks.runAll opened inner
        have closed := within.endFetch outcome
        simpa using closed
  | .get key => by
    rw [Step.events, Step.run, List.append_nil]
    split <;> exact tracks
  | .invalidate key => by
    rw [Step.events, Step.run]
    cases free : session.cache.isBusy key with
    | true => simpa using tracks
    | false => simpa using tracks.invalidate
  | .clear => tracks.clear
  | .purge => by
    rw [Step.events, Step.run, List.append_nil]
    exact tracks.purge
  | .size => by
    rw [Step.events, Step.run, List.append_nil]
    split <;> exact tracks
  | .wait nanos => by
    rw [Step.events, Step.run, List.append_nil]
    exact tracks.wait nanos

theorem Tracks.runAll {ttl : Duration} {history : List (Event α ε)} {session : Session α}
    {frames : List Frame} (tracks : Tracks ttl history session frames) :
    (steps : List (Step α ε)) →
      Tracks ttl (history ++ Step.eventsAll session history.length steps)
        (Step.runAll session steps).2 frames
  | [] => by simpa [Step.eventsAll, Step.runAll] using tracks
  | step :: rest => by
    have first := Tracks.run tracks step
    have others := Tracks.runAll first rest
    simpa [Step.eventsAll, Step.runAll] using others

end

/-- The moments of the runs that begin with an empty cache: what has happened so far, and the
session in which the next operation is performed. Such a moment lies behind a whole operation, or
within a fetch whose supplier runs. -/
inductive Reached (ttl : Duration) : List (Event α ε) → Session α → Prop where
  | empty (now : Nat) : Reached ttl [] { cache := { ttl }, now }
  | behind {history : List (Event α ε)} {session : Session α} (step : Step α ε) :
      Reached ttl history session →
        Reached ttl (history ++ Step.events session history.length step)
          (Step.run session step).2
  | within {history : List (Event α ε)} {session : Session α} {key : String} {id : SlotId}
      {cache : Cache α} :
      Reached ttl history session →
        session.cache.enter key session.now = .vacant id cache →
          Reached ttl (history ++ [.started key]) { session with cache }

theorem Reached.tracks {ttl : Duration} {history : List (Event α ε)} {session : Session α}
    (reached : Reached ttl history session) : ∃ frames, Tracks ttl history session frames := by
  induction reached with
  | empty now => exact ⟨[], Tracks.empty ttl now⟩
  | behind step _ ih =>
    obtain ⟨frames, tracks⟩ := ih
    exact ⟨frames, tracks.run step⟩
  | @within history session key id cache _ henter ih =>
    obtain ⟨frames, tracks⟩ := ih
    rw [enter_eq tracks.tidy] at henter
    cases free : session.cache.isBusy key with
    | true => simp [free] at henter
    | false =>
      cases hget : session.cache.get? key session.now with
      | some value => simp [free, hget] at henter
      | none =>
        simp only [free, hget, Bool.false_eq_true, if_false, Entrance.vacant.injEq] at henter
        -- only a vacant entrance lets a supplier run, and it is the one more fetch under way
        obtain ⟨-, rfl⟩ := henter
        exact ⟨_, tracks.startFetch free⟩

/-- Operations performed in order are reached at their end. -/
theorem Reached.behindAll {ttl : Duration} (steps : List (Step α ε)) :
    ∀ {history : List (Event α ε)} {session : Session α}, Reached ttl history session →
      Reached ttl (history ++ Step.eventsAll session history.length steps)
        (Step.runAll session steps).2 := by
  induction steps with
  | nil =>
    intro history session reached
    simpa [Step.eventsAll, Step.runAll] using reached
  | cons step rest ih =>
    intro history session reached
    simpa [Step.eventsAll, Step.runAll] using ih (reached.behind step)

/-- At every moment of every run a lookup gives, and a fetch hands out without running its
supplier, exactly the value that stands by the history: the one the last live supplier to end gave,
as long as it is fresh. Otherwise the lookup gives nothing, and the fetch runs its supplier once and
answers with what came of it. Only a key whose own fetch waits for it is left out. -/
theorem cache_answers_from_history {ttl : Duration} {history : List (Event α ε)}
    {session : Session α} (reached : Reached ttl history session) {key : String}
    (free : session.cache.isBusy key = false) :
    (∀ value, (Step.run session (.get key : Step α ε)).1 = .got (some value) ↔
        Stands ttl history key session.now value) ∧
      ((Step.run session (.get key : Step α ε)).1 = .got none ↔
        ∀ value, ¬ Stands ttl history key session.now value) ∧
      ∀ (inner : List (Step α ε)) (outcome : Outcome α ε),
        let answer := (Step.run session (.fetch key inner outcome)).1
        let events := Step.events session history.length (.fetch key inner outcome)
        let within : Session α := { session with cache := session.cache.opened key }
        (∀ value, Stands ttl history key session.now value ↔
            answer = .hit value) ∧
          (∀ value, Stands ttl history key session.now value → events = []) ∧
          ((∀ value, ¬ Stands ttl history key session.now value) →
            answer = .fetched (Step.runAll within inner).1 outcome ∧
              events = .started key :: Step.eventsAll within (history.length + 1) inner ++
                [.ended history.length outcome (Step.runAll within inner).2.now]) := by
  obtain ⟨frames, tracks⟩ := reached.tracks
  -- by the invariant to stand by the history is to be found in the cache
  have hstands : ∀ value, Stands ttl history key session.now value ↔
      session.cache.get? key session.now = some value := by
    intro value
    rw [stands_iff, tracks.get?_eq key session.now (Nat.le_refl _)]
  simp only [hstands, Step.run, Step.events, enter_eq tracks.tidy, free, Bool.false_eq_true,
    if_false]
  cases hget : session.cache.get? key session.now with
  | none => simp
  | some value => simp

/-- A fetch whose supplier clears the cache and fetches the key anew, before it ends itself. -/
def refetchWithin : List (Step Nat String) :=
  [.fetch "k" [.clear, .fetch "k" [.wait 5] (.value 2)] (.value 1), .purge]

/-- The value of the inner fetch stands; that of the outer one, which ended later, does not. -/
theorem cache_answers_with_inner_value :
    let before : Session Nat := { cache := { ttl := .ofSeconds 60 }, now := 0 }
    let session := (Step.runAll before refetchWithin).2
    Reached (.ofSeconds 60) (Step.eventsAll before 0 refetchWithin) session ∧
      session.cache.isBusy "k" = false ∧
      (Step.run session (.get "k" : Step Nat String)).1 = .got (some 2) := by
  intro before session
  have reached : Reached (.ofSeconds 60) (Step.eventsAll before 0 refetchWithin) session :=
    (Reached.empty 0).behindAll refetchWithin
  have free : session.cache.isBusy "k" = false := by decide
  refine ⟨reached, free, ((cache_answers_from_history reached free).1 2).2 ⟨5, ?_, ?_⟩⟩
  · decide
  · decide

end Locator.Cache
