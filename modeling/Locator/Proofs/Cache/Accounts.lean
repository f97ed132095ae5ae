import Mathlib.Data.Set.Card
import Locator.Proofs.Cache.Makers

/-!
# The accounts of a cache

The keys of a cache are counted by what their slots hold: a fresh value, a stale one, or nothing at
all, and apart from that there are those whose slot is being fetched into. Every operation that
counts or forgets keys is described by these sets, whatever the runs before it were like.

* `size_eq_ncard`, `anyLocked_eq_false_iff`: counting the keys that hold a value
* `idle_eq_union`: the keys that a purge takes, of two kinds
* `purge_fst_eq`, `slotOf?_purge_eq_none`, `leaves_purge`, `purge_purge`: what a purge does
* `index_settle_error`: what a fetch that failed leaves of the index
* `cache_accounts`: the books at every moment of every run
-/

namespace Locator.Cache

variable {α ε : Type} {cache : Cache α} {key : String} {id : SlotId} {now : Nat}

/-! ## Kinds of keys -/

/-- The keys that hold a value, fresh or stale. -/
def holdingKeys (cache : Cache α) : Set String :=
  {key | (cache.entryOf? key).isSome = true}

def freshKeys (cache : Cache α) (now : Nat) : Set String :=
  {key | ∃ entry, cache.entryOf? key = some entry ∧ entry.isFresh cache.ttl now = true}

def staleKeys (cache : Cache α) (now : Nat) : Set String :=
  {key | ∃ entry, cache.entryOf? key = some entry ∧ entry.isFresh cache.ttl now = false}

/-- The keys whose slot is empty. -/
def emptyKeys (cache : Cache α) : Set String :=
  {key | ∃ id, cache.slotOf? key = some id ∧ (cache.slot id).entry = none}

/-- The keys whose slot is being fetched into. -/
def busyKeys (cache : Cache α) : Set String :=
  {key | cache.isBusy key = true}

/-- The keys that have nothing fresh and get nothing fresh either. -/
def idleKeys (cache : Cache α) (now : Nat) : Set String :=
  (cache.staleKeys now ∪ cache.emptyKeys) \ cache.busyKeys

/-! ## Counting -/

/-- To count in the index is to count keys. -/
theorem countP_index (tidy : cache.Tidy) (p : SlotId → Bool) :
    cache.index.countP (fun entry => p entry.2) =
      {key | ∃ id, cache.slotOf? key = some id ∧ p id = true}.ncard := by
  have hkeys : {key | ∃ id, cache.slotOf? key = some id ∧ p id = true} =
      ↑((cache.index.filter fun entry => p entry.2).map Prod.fst).toFinset := by
    ext key
    simp [tidy.slotOf?_eq_some_iff]
  have hnodup : ((cache.index.filter fun entry => p entry.2).map Prod.fst).Nodup :=
    tidy.keys_nodup.sublist (List.filter_sublist.map Prod.fst)
  rw [hkeys, Set.ncard_coe_finset, List.toFinset_card_of_nodup hnodup, List.length_map,
    List.countP_eq_length_filter]

theorem finite_of_slotOf? (tidy : cache.Tidy) {keys : Set String}
    (h : ∀ key ∈ keys, ∃ id, cache.slotOf? key = some id) : keys.Finite := by
  refine (List.finite_toSet (cache.index.map Prod.fst)).subset fun key hkey => ?_
  obtain ⟨id, hid⟩ := h key hkey
  exact List.mem_map.mpr ⟨(key, id), tidy.slotOf?_eq_some_iff.mp hid, rfl⟩

/-- The size is the number of keys that hold a value. -/
theorem size_eq_ncard (tidy : cache.Tidy) : cache.size = cache.holdingKeys.ncard := by
  rw [size, countP_index tidy fun id => (cache.slot id).entry.isSome]
  congr 1
  ext key
  simp only [holdingKeys, entryOf?, Set.mem_ofPred_eq]
  cases cache.slotOf? key <;> simp

/-! ## Purging -/

theorem mem_idleKeys_iff :
    key ∈ cache.idleKeys now ↔
      ∃ id, cache.slotOf? key = some id ∧ cache.keepsInPurge now id = false := by
  simp only [idleKeys, staleKeys, emptyKeys, busyKeys, Set.mem_sdiff, Set.mem_union,
    Set.mem_ofPred_eq, entryOf?, isBusy, keepsInPurge_eq_false_iff, freshIn?]
  cases cache.slotOf? key with
  | none => simp
  | some id =>
    simp only [Option.bind_some, Option.any_some, Option.some.injEq, exists_eq_left']
    cases (cache.slot id).entry <;> simp [and_comm]

/-- A purge counts the stale keys and the empty ones that nobody fetches for. -/
theorem purge_fst_eq (tidy : cache.Tidy) :
    (cache.purge now).1 =
      (cache.staleKeys now \ cache.busyKeys).ncard + (cache.emptyKeys \ cache.busyKeys).ncard := by
  -- what the filter leaves out of the index, counted as keys
  have hcount : (cache.purge now).1 = (cache.idleKeys now).ncard := by
    have hidle : cache.idleKeys now =
        {key | ∃ id, cache.slotOf? key = some id ∧ (!cache.keepsInPurge now id) = true} := by
      ext key
      simp [mem_idleKeys_iff]
    have hlength := cache.index.length_eq_countP_add_countP fun entry =>
      cache.keepsInPurge now entry.2
    rw [hidle, ← countP_index tidy]
    simp only [purge, ← List.countP_eq_length_filter, Bool.not_eq_true, Bool.decide_eq_false]
      at hlength ⊢
    omega
  have hdisjoint : Disjoint (cache.staleKeys now \ cache.busyKeys)
      (cache.emptyKeys \ cache.busyKeys) := by
    rw [Set.disjoint_left]
    rintro key ⟨⟨entry, hentry, -⟩, -⟩ ⟨⟨id, hid, hempty⟩, -⟩
    rw [entryOf?, hid, Option.bind_some, hempty] at hentry
    cases hentry
  -- `ncard` of an infinite set is zero, so the sum needs both sets finite
  have hfinite (keys : Set String) (h : keys ⊆ cache.idleKeys now) : keys.Finite :=
    finite_of_slotOf? tidy fun key hkey =>
      (mem_idleKeys_iff.mp (h hkey)).imp fun _ hid => hid.1
  rw [hcount, idleKeys, Set.union_sdiff_distrib]
  refine Set.ncard_union_eq hdisjoint (hfinite _ ?_) (hfinite _ ?_) <;>
    rw [idleKeys, Set.union_sdiff_distrib]
  · exact Set.subset_union_left
  · exact Set.subset_union_right

theorem slotOf?_purge_eq_none (tidy : cache.Tidy) (h : key ∈ cache.idleKeys now) :
    (cache.purge now).2.slotOf? key = none := by
  obtain ⟨id, hid, hkeeps⟩ := mem_idleKeys_iff.mp h
  rw [slotOf?_purge tidy, hid, Option.filter_some, hkeeps]
  rfl

/-- What a purge does not take it leaves alone. -/
theorem leaves_purge (tidy : cache.Tidy) (h : key ∉ cache.idleKeys now) :
    Leaves key cache (cache.purge now).2 where
  slotOf?_eq := by
    rw [slotOf?_purge tidy]
    cases hid : cache.slotOf? key with
    | none => rfl
    | some id =>
      have hkeeps : cache.keepsInPurge now id = true := by
        by_contra hkeeps
        exact h (mem_idleKeys_iff.mpr ⟨id, hid, Bool.eq_false_iff.mpr hkeeps⟩)
      rw [Option.filter_some, if_pos hkeeps]
  slot_eq _ _ := slot_purge _

/-- Behind a purge there is nothing left to take. -/
theorem purge_purge : (cache.purge now).2.purge now = (0, (cache.purge now).2) := by
  have hkeeps : (cache.purge now).2.keepsInPurge now = cache.keepsInPurge now := rfl
  rw [purge, hkeeps]
  simp only [purge, List.filter_filter, Bool.and_self, Nat.sub_self]

theorem anyLocked_eq_false_iff (tidy : cache.Tidy) :
    cache.anyLocked = false ↔ cache.AtRest := by
  simp only [anyLocked, List.any_eq_false, Bool.not_eq_true, Prod.forall]
  constructor
  · intro h
    exact atRest_of_not_locked tidy fun key id hid => h key id (tidy.slotOf?_eq_some_iff.mp hid)
  · intro rest key id hid
    exact rest.not_locked (tidy.slotOf?_eq_some_iff.mpr hid)

/-- Of a cache at rest a purge leaves the fresh keys. -/
theorem holdingKeys_purge (rest : cache.AtRest) :
    (cache.purge now).2.holdingKeys = cache.freshKeys now := by
  ext key
  simp only [holdingKeys, freshKeys, Set.mem_ofPred_eq, entryOf?_purge rest,
    Option.isSome_iff_exists, Option.filter_eq_some_iff]

/-! ## Fetches that fail -/

/-- A fetch that fails takes its own slot out of the index, if it is still there, and no other. -/
theorem index_settle_error (tidy : cache.Tidy) (hid : id < cache.slots.length)
    (hholders : (cache.slot id).holders = 1) (error : ε) :
    (cache.settle key id (.error error : Outcome α ε) now).index =
      cache.index.filter (· ≠ (key, id)) := by
  have hrecord : ((cache.record id (.error error : Outcome α ε) now).slot id).holders = 1 := by
    rw [slot_record hid, if_pos rfl]
    exact hholders
  show ((cache.record id (.error error : Outcome α ε) now).release key id).index = _
  by_cases hkey : cache.slotOf? key = some id
  · -- the key stands in the index with this slot only
    rw [release, if_pos ⟨hkey, hrecord⟩]
    refine List.filter_congr fun entry hentry => ?_
    obtain ⟨name, j⟩ := entry
    have hsame : name = key → j = id := by
      rintro rfl
      rw [tidy.slotOf?_eq_some_iff.mpr hentry] at hkey
      exact Option.some.inj hkey
    by_cases hname : name = key
    · simp [hname, hsame hname]
    · simp [hname]
  · rw [release, if_neg fun h => hkey h.1]
    refine (List.filter_eq_self.mpr fun entry hentry => ?_).symm
    have hne : entry ≠ (key, id) := by
      rintro rfl
      exact hkey (tidy.slotOf?_eq_some_iff.mpr hentry)
    exact decide_eq_true hne

/-- A slot has been taken out of the index, and nothing else has changed there: its key is gone,
unless another slot has been made for it in the meantime. -/
structure Withdrawn (key : String) (id : SlotId) (before after : Cache α) : Prop where
  index_eq : after.index = before.index.filter (· ≠ (key, id))
  gone : ∀ k, after.slotOf? k ≠ some id
  forgotten : before.slotOf? key = some id → after.slotOf? key = none
  slot_eq : ∀ entry ∈ after.index, after.slot entry.2 = before.slot entry.2

theorem withdrawn_settle (tidy : cache.Tidy) (hid : id < cache.slots.length)
    (hholders : (cache.slot id).holders = 1)
    (hown : ∀ k, cache.slotOf? k = some id → k = key) (error : ε) :
    Withdrawn key id cache (cache.settle key id (.error error : Outcome α ε) now) where
  index_eq := index_settle_error tidy hid hholders error
  gone k hk := by
    rw [slotOf?_settle hid hholders] at hk
    split at hk
    · cases hk
    · next hstays =>
      obtain rfl := hown k hk
      exact hstays ⟨rfl, rfl, hk⟩
  forgotten hkey := by rw [slotOf?_settle hid hholders, if_pos ⟨rfl, rfl, hkey⟩]
  slot_eq entry hentry := by
    rw [index_settle_error tidy hid hholders error, List.mem_filter] at hentry
    obtain ⟨name, j⟩ := entry
    rw [slot_settle hid, if_neg]
    rintro rfl
    -- an entry that is left with this very slot would be the one that was taken out
    obtain rfl := hown name (tidy.slotOf?_eq_some_iff.mpr hentry.1)
    exact of_decide_eq_true hentry.2 rfl

section

variable {ttl : Duration} {history : List (Event α ε)} {session : Session α} {frames : List Frame}
  {inner : List (Step α ε)} {error : ε}

/-- What a fetch comes to whose key is free and has nothing fresh: its outcome is recorded when its
supplier has ended. -/
theorem run_fetch_of_vacant (tidy : session.cache.Tidy) (free : session.cache.isBusy key = false)
    (hget : session.cache.get? key session.now = none) (outcome : Outcome α ε) :
    let opened : Session α := { session with cache := session.cache.opened key }
    let within := (Step.runAll opened inner).2
    Step.run session (.fetch key inner outcome) =
      (.fetched (Step.runAll opened inner).1 outcome,
        { within with
          cache := within.cache.settle key (session.cache.take key).1 outcome within.now }) := by
  intro opened within
  rw [Step.run, enter_eq tidy, free, hget]
  rfl

/-- Only such a fetch runs its supplier. -/
theorem vacant_of_run_eq (tidy : session.cache.Tidy) {outcome ended : Outcome α ε}
    {answers : List (Answer α ε)}
    (h : (Step.run session (.fetch key inner outcome)).1 = .fetched answers ended) :
    session.cache.isBusy key = false ∧ session.cache.get? key session.now = none := by
  rw [Step.run, enter_eq tidy] at h
  cases free : session.cache.isBusy key with
  | true => simp [free] at h
  | false =>
    cases hget : session.cache.get? key session.now with
    | some value => simp [free, hget] at h
    | none => exact ⟨rfl, rfl⟩

/-- A fetch that fails takes its slot out of what its supplier leaves; where that is what it came
into, all other keys are left alone. -/
theorem Tracks.withdrawn (tracks : Tracks ttl history session frames)
    {answers : List (Answer α ε)}
    (h : (Step.run session (.fetch key inner (.error error))).1 = .fetched answers (.error error)) :
    let opened : Session α := { session with cache := session.cache.opened key }
    let within := (Step.runAll opened inner).2.cache
    let after := (Step.run session (.fetch key inner (.error error))).2.cache
    Withdrawn key (session.cache.take key).1 within after ∧
      (within = opened.cache → ∀ other ≠ key, Leaves other session.cache after) := by
  intro opened within after
  obtain ⟨free, hget⟩ := vacant_of_run_eq tracks.tidy h
  have hafter : after = within.settle key (session.cache.take key).1
      (.error error : Outcome α ε) (Step.runAll opened inner).2.now :=
    congrArg (fun ran => ran.2.cache) (run_fetch_of_vacant tracks.tidy free hget (.error error))
  -- the supplier has run, and the fetch is still the innermost one under way
  have ended := (tracks.startFetch free).runAll inner
  let frame : Frame := ⟨key, (session.cache.take key).1, history.length⟩
  have hself : frame ∈ frame :: frames := List.mem_cons_self
  rw [hafter]
  refine ⟨withdrawn_settle ended.tidy (ended.lt_length hself) (ended.slot_busy _ hself).2
    (ended.key_of_slot _ hself) error, ?_⟩
  intro hwithin other hother
  rw [hwithin]
  exact leaves_settle_opened _ tracks.tidy hother

/-- To invalidate a key is to be told whether it holds a value. -/
theorem run_invalidate_eq (free : session.cache.isBusy key = false) :
    ∃ had, (Step.run session (.invalidate key : Step α ε)).1 = .invalidated had ∧
      (had = true ↔ key ∈ session.cache.holdingKeys) := by
  refine ⟨(session.cache.invalidate key).1, ?_, ?_⟩
  · rw [Step.run, free]
    rfl
  · rw [holdingKeys, Set.mem_ofPred_eq, entryOf?, Cache.invalidate]
    cases session.cache.slotOf? key <;> rfl

theorem run_size_eq (tidy : session.cache.Tidy) (h : session.cache.anyLocked = false) :
    (Step.run session (.size : Step α ε)).1 = .counted session.cache.holdingKeys.ncard := by
  rw [Step.run, h, size_eq_ncard tidy]
  rfl

/-- Behind a purge the size is the number of keys that were fresh. -/
theorem run_size_purge_eq (tidy : session.cache.Tidy) (h : session.cache.anyLocked = false) :
    (Step.run (Step.run session (.purge : Step α ε)).2 (.size : Step α ε)).1 =
      .counted (session.cache.freshKeys session.now).ncard := by
  have rest := (anyLocked_eq_false_iff tidy).mp h
  have after : (session.cache.purge session.now).2.AtRest := rest.purge
  rw [← holdingKeys_purge rest]
  exact run_size_eq after.tidy ((anyLocked_eq_false_iff after.tidy).mpr after)

/-- A key that has a slot holds a value, where nothing is being fetched, or the slot was made for a
supplier that was torn down. -/
theorem Founded.holds_or_torn {made : List (Outcome α ε)} (founded : Founded made cache)
    (rest : cache.AtRest) (hkey : cache.slotOf? key = some id) :
    key ∈ cache.holdingKeys ∨ made[id]? = some .aborted := by
  rw [holdingKeys, Set.mem_ofPred_eq, entryOf?, hkey, Option.bind_some]
  cases hentry : (cache.slot id).entry with
  | none => exact Or.inr (founded.torn key id hkey (rest.not_locked hkey) hentry)
  | some entry => exact Or.inl rfl

end

/-- What a purge takes and what it leaves. -/
structure Purged (now : Nat) (before after : Cache α) : Prop where
  gone : ∀ key ∈ before.idleKeys now, after.slotOf? key = none
  kept : ∀ key ∉ before.idleKeys now, Leaves key before after
  busy : ∀ key ∈ before.busyKeys, Leaves key before after

theorem purged_purge (tidy : cache.Tidy) : Purged now cache (cache.purge now).2 where
  gone _ h := slotOf?_purge_eq_none tidy h
  kept _ h := leaves_purge tidy h
  busy _ h := leaves_purge tidy fun hidle => hidle.2 h

/-! ## The books -/

/-- The books of a cache. Between operations nothing is being fetched, every slot has its maker, and
a key that has a slot holds a value, unless the slot was made for a supplier that was torn down.

At every moment of a run, within fetches too: a fetch that fails takes its own slot out of the index
that its supplier left and nothing else, so where the supplier leaves the cache alone all other keys
are as they were. The size is the number of keys that hold a value, and to invalidate one of them is
to be told so, where this need not wait for a slot that is being fetched into. A purge takes the
keys that are stale and those that are empty, but none that is being fetched for, says how many, and
leaves all others as they are; at the same moment another one takes nothing, and the size is the
number of fresh keys. -/
theorem cache_accounts (ttl : Duration) :
    (∀ (now : Nat) (steps : List (Step α ε)),
      let start : Session α := { cache := { ttl }, now }
      let session := (Step.runAll start steps).2
      let made := Step.makersAll start steps
      session.cache.anyLocked = false ∧
      session.cache.slots.length = made.length ∧
      ∀ key id, session.cache.slotOf? key = some id →
        key ∈ session.cache.holdingKeys ∨ made[id]? = some .aborted) ∧
    ∀ (history : List (Event α ε)) (session : Session α), Reached ttl history session →
      (∀ (key : String) (inner : List (Step α ε)) (error : ε) (answers : List (Answer α ε)),
        (Step.run session (.fetch key inner (.error error))).1 = .fetched answers (.error error) →
        let opened : Session α := { session with cache := session.cache.opened key }
        let within := (Step.runAll opened inner).2.cache
        let after := (Step.run session (.fetch key inner (.error error))).2.cache
        Withdrawn key (session.cache.take key).1 within after ∧
          (within = opened.cache → ∀ other ≠ key, Leaves other session.cache after)) ∧
      (session.cache.anyLocked = false →
        (Step.run session (.size : Step α ε)).1 = .counted session.cache.holdingKeys.ncard) ∧
      (∀ key, session.cache.isBusy key = false →
        ∃ had, (Step.run session (.invalidate key : Step α ε)).1 = .invalidated had ∧
          (had = true ↔ key ∈ session.cache.holdingKeys)) ∧
      let purged := Step.run session (.purge : Step α ε)
      purged.1 = .purged
        ((session.cache.staleKeys session.now \ session.cache.busyKeys).ncard +
          (session.cache.emptyKeys \ session.cache.busyKeys).ncard) ∧
      Purged session.now session.cache purged.2.cache ∧
      (Step.run purged.2 (.purge : Step α ε)).1 = .purged 0 ∧
      (session.cache.anyLocked = false →
        (Step.run purged.2 (.size : Step α ε)).1 =
          .counted (session.cache.freshKeys session.now).ncard) := by
  constructor
  · intro now steps start session made
    have tracks := (Tracks.empty ttl now).runAll steps
    have founded := (Founded.empty ttl).runAll (Tracks.empty ttl now) steps
    have rest : session.cache.AtRest := AtRest.of_runAll ttl now steps
    exact ⟨(anyLocked_eq_false_iff rest.tidy).mpr rest, founded.length_eq,
      fun key id hkey => founded.holds_or_torn rest hkey⟩
  · -- within fetches too, where all that is known of the session is that it tracks its history
    intro history session reached
    obtain ⟨frames, tracks⟩ := reached.tracks
    have tidy := tracks.tidy
    have again : (session.cache.purge session.now).2.purge session.now =
        (0, (session.cache.purge session.now).2) := purge_purge
    exact ⟨fun key inner error answers h => tracks.withdrawn h, run_size_eq tidy,
      fun key free => run_invalidate_eq free, congrArg Answer.purged (purge_fst_eq tidy),
      purged_purge tidy, congrArg (Answer.purged ∘ Prod.fst) again, run_size_purge_eq tidy⟩

/-- A value that goes stale, one that is fresh, and a slot whose supplier was torn down. -/
def mixedRun : List (Step Nat String) :=
  [.fetch "stale" [] (.value 1), .wait 1000000001, .fetch "fresh" [] (.value 2),
    .fetch "torn" [] .aborted]

/-- What this leaves of an empty cache. -/
def mixedSession : Session Nat :=
  (Step.runAll { cache := { ttl := .ofSeconds 1 }, now := 0 } mixedRun).2

/-- A fetch that fails for the stale key leaves the fresh one alone; the key of the torn supplier
holds nothing. -/
theorem cache_accounts_of_mixedRun :
    let start : Session Nat := { cache := { ttl := .ofSeconds 1 }, now := 0 }
    let failing : Step Nat String := .fetch "stale" [] (.error "gone")
    Reached (.ofSeconds 1) (Step.eventsAll start 0 mixedRun) mixedSession ∧
      mixedSession.cache.anyLocked = false ∧
      (Step.run mixedSession failing).1 = .fetched [] (.error "gone") ∧
      (∀ key, (Step.run mixedSession failing).2.cache.slotOf? key ≠
        some (mixedSession.cache.take "stale").1) ∧
      Leaves "fresh" mixedSession.cache (Step.run mixedSession failing).2.cache ∧
      mixedSession.cache.slotOf? "torn" = some 2 ∧
      "torn" ∉ mixedSession.cache.holdingKeys ∧
      (Step.makersAll start mixedRun)[2]? = some .aborted ∧
      mixedSession.cache.isBusy "torn" = false ∧
      (Step.run mixedSession (.invalidate "torn" : Step Nat String)).1 = .invalidated false ∧
      (Step.run mixedSession (.size : Step Nat String)).1 =
        .counted mixedSession.cache.holdingKeys.ncard ∧
      (Step.run (Step.run mixedSession (.purge : Step Nat String)).2
        (.size : Step Nat String)).1 =
        .counted (mixedSession.cache.freshKeys mixedSession.now).ncard := by
  intro start failing
  have reached : Reached (.ofSeconds 1) (Step.eventsAll start 0 mixedRun) mixedSession :=
    (Reached.empty 0).behindAll mixedRun
  have unlocked : mixedSession.cache.anyLocked = false := by decide
  have failed : (Step.run mixedSession failing).1 = .fetched [] (.error "gone") := by
    obtain ⟨_, tracks⟩ := reached.tracks
    exact congrArg Prod.fst (run_fetch_of_vacant tracks.tidy (by decide) (by decide) _)
  have hslot : mixedSession.cache.slotOf? "torn" = some 2 := by decide
  have free : mixedSession.cache.isBusy "torn" = false := by decide
  have hempty : (mixedSession.cache.entryOf? "torn").isSome = false := by decide
  have hnone : "torn" ∉ mixedSession.cache.holdingKeys := by
    rw [holdingKeys, Set.mem_ofPred_eq, hempty]
    exact Bool.false_ne_true
  obtain ⟨topLevel, within⟩ := cache_accounts (ε := String) (.ofSeconds 1)
  obtain ⟨failure, size, invalidate, -, -, -, left⟩ := within _ mixedSession reached
  obtain ⟨withdrawn, others⟩ := failure "stale" [] "gone" [] failed
  obtain ⟨had, hanswer, hhad⟩ := invalidate "torn" free
  obtain rfl : had = false := Bool.eq_false_iff.mpr fun h => hnone (hhad.mp h)
  exact ⟨reached, unlocked, failed, withdrawn.gone,
    others (by rw [Step.runAll]) "fresh" (by decide), hslot, hnone,
    ((topLevel 0 mixedRun).2.2 "torn" 2 hslot).resolve_left hnone, free, hanswer,
    size unlocked, left unlocked⟩

end Locator.Cache
