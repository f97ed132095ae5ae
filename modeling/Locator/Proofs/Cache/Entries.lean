import Locator.Proofs.Cache.Recall

/-!
# A cache at rest, entry by entry

While nobody fetches, a cache is what is stored for each key: `entryOf?`. Two things can come of a
caller that is alone with it. A fresh value is handed out and nothing changes; otherwise the caller
fetches, and what came of it takes the place of the entry of that key.

* `AtRest` holds after every run of operations (`AtRest.of_runAll`)
* `Leaves` says that a key has been left alone, its slot included
* `leaves_take_drop`, `leaves_settle_opened`, `entryOf?_settle_opened`: the two ways of a caller
* `entryOf?_purge`, `entryOf?_invalidate`: the operations that forget
-/

namespace Locator.Cache

variable {α ε : Type} {cache before middle after : Cache α} {key k : String} {id : SlotId}
  {now later : Nat} {entry : Entry α}

/-- What is stored for a key, fresh or not. -/
def entryOf? (cache : Cache α) (key : String) : Option (Entry α) :=
  (cache.slotOf? key).bind fun id => (cache.slot id).entry

theorem get?_eq_entryOf? (cache : Cache α) (key : String) (now : Nat) :
    cache.get? key now =
      ((cache.entryOf? key).filter (·.isFresh cache.ttl now)).map (·.value) := by
  rw [get?, entryOf?]
  cases cache.slotOf? key <;> rfl

theorem get?_of_entryOf? (h : cache.entryOf? key = some entry)
    (hfresh : entry.isFresh cache.ttl now = true) : cache.get? key now = some entry.value := by
  rw [get?_eq_entryOf?, h, Option.filter_some, if_pos hfresh, Option.map_some]

theorem exists_entryOf?_of_get? {value : α} (h : cache.get? key now = some value) :
    ∃ entry, cache.entryOf? key = some entry ∧ entry.isFresh cache.ttl now = true ∧
      entry.value = value := by
  rw [get?_eq_entryOf?, Option.map_eq_some_iff] at h
  obtain ⟨entry, hentry, hvalue⟩ := h
  obtain ⟨hsome, hfresh⟩ := Option.filter_eq_some_iff.1 hentry
  exact ⟨entry, hsome, hfresh, hvalue⟩

theorem get?_eq_none_of_le (hle : now ≤ later) (h : cache.get? key now = none) :
    cache.get? key later = none := by
  rw [get?, Option.bind_eq_none_iff] at h ⊢
  intro id hid
  exact freshIn?_eq_none_of_le hle (h id hid)

/-- What was stored just now is fresh, however short the time to live. -/
theorem isFresh_self (value : α) (ttl : Duration) (now : Nat) :
    (Entry.mk value now).isFresh ttl now = true := by
  simp [Entry.isFresh]

/-! ## At rest -/

/-- Keys and slots belong together, and nobody fetches for any key. -/
structure AtRest (cache : Cache α) : Prop where
  tidy : cache.Tidy
  free : ∀ key, cache.isBusy key = false

theorem AtRest.not_locked (rest : cache.AtRest) (h : cache.slotOf? key = some id) :
    (cache.slot id).locked = false := by
  have hfree := rest.free key
  rwa [isBusy, h, Option.any_some] at hfree

theorem atRest_of_not_locked (tidy : cache.Tidy)
    (h : ∀ key id, cache.slotOf? key = some id → (cache.slot id).locked = false) :
    cache.AtRest where
  tidy
  free key := by
    rw [isBusy, Option.any_eq_false]
    intro id hid
    rw [h key id hid]

theorem atRest_empty (ttl : Duration) : AtRest ({ ttl } : Cache α) where
  tidy := tidy_empty ttl
  free _ := rfl

/-- Runs of operations that begin with an empty cache leave it at rest, whatever their fetches did
inside and however they ended. -/
theorem AtRest.of_runAll (ttl : Duration) (now : Nat) (steps : List (Step α ε)) :
    (Step.runAll { cache := { ttl }, now } steps).2.cache.AtRest := by
  have tracks : Tracks ttl ([] ++ Step.eventsAll { cache := { ttl }, now } 0 steps)
      (Step.runAll { cache := { ttl }, now } steps).2 [] :=
    (Tracks.empty ttl now).runAll steps
  apply atRest_of_not_locked tracks.tidy
  intro key id _
  exact (tracks.slot_idle id List.not_mem_nil).1

/-! ## Keys that are left alone -/

/-- The key leads to the same slot as before, and what is in the slot is the same. -/
structure Leaves (key : String) (before after : Cache α) : Prop where
  slotOf?_eq : after.slotOf? key = before.slotOf? key
  slot_eq : ∀ id, before.slotOf? key = some id → after.slot id = before.slot id

namespace Leaves

theorem refl (key : String) (cache : Cache α) : Leaves key cache cache :=
  ⟨rfl, fun _ _ => rfl⟩

theorem trans (h : Leaves key before middle) (h' : Leaves key middle after) :
    Leaves key before after where
  slotOf?_eq := h'.slotOf?_eq.trans h.slotOf?_eq
  slot_eq id hid := (h'.slot_eq id (h.slotOf?_eq.trans hid)).trans (h.slot_eq id hid)

theorem entryOf?_eq (h : Leaves key before after) : after.entryOf? key = before.entryOf? key := by
  rw [entryOf?, entryOf?, h.slotOf?_eq]
  cases hid : before.slotOf? key with
  | none => rfl
  | some id => rw [Option.bind_some, Option.bind_some, h.slot_eq id hid]

theorem isBusy_eq (h : Leaves key before after) : after.isBusy key = before.isBusy key := by
  rw [isBusy, isBusy, h.slotOf?_eq]
  cases hid : before.slotOf? key with
  | none => rfl
  | some id => rw [Option.any_some, Option.any_some, h.slot_eq id hid]

end Leaves

/-! ## A value that is fresh -/

/-- A caller that finds a fresh value holds a slot for a moment and changes nothing. -/
theorem leaves_take_drop (rest : cache.AtRest) {value : α} (h : cache.get? key now = some value)
    (k : String) : Leaves k cache ((cache.take key).2.drop (cache.take key).1) := by
  obtain ⟨id, hid, -⟩ := Option.bind_eq_some_iff.1 h
  exact ⟨slotOf?_take_drop hid k, fun j _ => slot_take_drop rest.tidy j⟩

theorem AtRest.take_drop (rest : cache.AtRest) {value : α}
    (h : cache.get? key now = some value) :
    ((cache.take key).2.drop (cache.take key).1).AtRest where
  tidy := rest.tidy.take.modify _
  free k := (leaves_take_drop rest h k).isBusy_eq.trans (rest.free k)

/-! ## A fetch -/

/-- A fetch takes no other key out of the index. -/
theorem slotOf?_settle_of_ne (hk : k ≠ key) (outcome : Outcome α ε) :
    (cache.settle key id outcome now).slotOf? k = cache.slotOf? k := by
  cases outcome with
  | error error =>
    rw [settle, slotOf?_drop, slotOf?_release, if_neg (fun hand => hk hand.1), slotOf?_record]
  | _ => rfl

/-- Only a fetch that failed takes its own key out of the index. -/
theorem slotOf?_settle_self (cache : Cache α) (key : String) (id : SlotId) (now : Nat)
    (outcome : Outcome α ε) :
    (cache.settle key id outcome now).slotOf? key = cache.slotOf? key ∨
      (cache.settle key id outcome now).slotOf? key = none ∧ outcome.isError = true := by
  cases outcome with
  | error error =>
    rw [settle, slotOf?_drop, slotOf?_release]
    split
    · exact Or.inr ⟨rfl, rfl⟩
    · exact Or.inl rfl
  | _ => exact Or.inl rfl

section

variable (outcome : Outcome α ε)

theorem opened_lt (tidy : cache.Tidy) : (cache.take key).1 < (cache.opened key).slots.length := by
  rw [opened, lock, length_slots_modify]
  exact take_fst_lt tidy

/-- A fetch leaves all keys alone but its own. -/
theorem leaves_settle_opened (tidy : cache.Tidy) (hk : k ≠ key) :
    Leaves k cache ((cache.opened key).settle key (cache.take key).1 outcome later) where
  slotOf?_eq := by rw [slotOf?_settle_of_ne hk, slotOf?_opened, if_neg hk]
  slot_eq j hj := by
    -- no other key leads to the slot that was fetched into
    have hne : j ≠ (cache.take key).1 := by
      rintro rfl
      rw [take_fst] at hj
      cases hkey : cache.slotOf? key with
      | none =>
        rw [hkey, Option.getD_none] at hj
        exact absurd (tidy.lt_length hj) (Nat.lt_irrefl _)
      | some id =>
        rw [hkey, Option.getD_some] at hj
        exact hk (tidy.key_unique hj hkey)
    rw [slot_settle (opened_lt tidy), if_neg hne, slot_opened tidy, if_neg hne]

/-- What is stored for the key of a fetch afterwards is what came of it. -/
theorem entryOf?_settle_opened (tidy : cache.Tidy) :
    ((cache.opened key).settle key (cache.take key).1 outcome later).entryOf? key =
      outcome.entryAfter later (cache.entryOf? key) := by
  -- a new slot is empty and a known one holds what the key had
  have hentry : (cache.slot (cache.take key).1).entry = cache.entryOf? key := by
    rw [take_fst, entryOf?]
    cases hkey : cache.slotOf? key with
    | none => rw [Option.getD_none, slot_of_length_le (Nat.le_refl _), Option.bind_none]
    | some id => rw [Option.getD_some, Option.bind_some]
  obtain hkept | ⟨hgone, herror⟩ :=
    slotOf?_settle_self (cache.opened key) key (cache.take key).1 later outcome
  · rw [entryOf?, hkept, slotOf?_opened, if_pos rfl, Option.bind_some,
      slot_settle (opened_lt tidy), if_pos rfl, slot_opened tidy, if_pos rfl, hentry]
  · rw [entryOf?, hgone, Option.bind_none]
    cases outcome with
    | error error => rfl
    | value value => exact absurd herror Bool.false_ne_true
    | aborted => exact absurd herror Bool.false_ne_true

theorem AtRest.settle_opened (rest : cache.AtRest) :
    ((cache.opened key).settle key (cache.take key).1 outcome later).AtRest := by
  apply atRest_of_not_locked (rest.tidy.opened.settle outcome)
  intro k j hj
  by_cases hk : k = key
  · subst hk
    -- the slot of the fetch is unlocked by its end, or the key has none any more
    obtain hkept | ⟨hgone, -⟩ :=
      slotOf?_settle_self (cache.opened k) k (cache.take k).1 later outcome
    · rw [hkept, slotOf?_opened, if_pos rfl] at hj
      obtain rfl := Option.some.inj hj
      rw [slot_settle (opened_lt rest.tidy), if_pos rfl]
    · rw [hgone] at hj
      cases hj
  · have hleaves :
        Leaves k cache ((cache.opened key).settle key (cache.take key).1 outcome later) :=
      leaves_settle_opened outcome rest.tidy hk
    rw [hleaves.slotOf?_eq] at hj
    rw [hleaves.slot_eq j hj]
    exact rest.not_locked hj

end

/-! ## Forgetting -/

/-- A purge forgets the entries that are not fresh, and no others. -/
theorem entryOf?_purge (rest : cache.AtRest) :
    (cache.purge now).2.entryOf? key =
      (cache.entryOf? key).filter (·.isFresh cache.ttl now) := by
  rw [entryOf?, entryOf?, slotOf?_purge rest.tidy]
  cases hid : cache.slotOf? key with
  | none => rfl
  | some id =>
    -- at rest no slot is locked, so a purge keeps exactly the fresh ones
    have hkeeps : cache.keepsInPurge now id =
        ((cache.slot id).entry.filter (·.isFresh cache.ttl now)).isSome := by
      rw [keepsInPurge, rest.not_locked hid, Bool.false_or, freshIn?, Option.isSome_map]
    rw [Option.filter_some, hkeeps, Option.bind_some]
    cases hentry : (cache.slot id).entry with
    | none => rfl
    | some entry =>
      rw [Option.filter_some]
      split
      · rw [Option.isSome_some, if_pos rfl, Option.bind_some, slot_purge, hentry]
      · rfl

theorem entryOf?_invalidate (k : String) :
    (cache.invalidate key).2.entryOf? k = if k = key then none else cache.entryOf? k := by
  rw [entryOf?, slotOf?_invalidate]
  split
  · rfl
  · simp only [slot_invalidate, entryOf?]

@[simp] theorem entryOf?_clear : cache.clear.entryOf? key = none := rfl

theorem AtRest.purge (rest : cache.AtRest) : (cache.purge now).2.AtRest := by
  apply atRest_of_not_locked rest.tidy.purge
  intro key id hid
  rw [slotOf?_purge rest.tidy, Option.filter_eq_some_iff] at hid
  exact rest.not_locked hid.1

theorem AtRest.invalidate (rest : cache.AtRest) : (cache.invalidate key).2.AtRest := by
  apply atRest_of_not_locked rest.tidy.invalidate
  intro k id hid
  rw [slotOf?_invalidate] at hid
  split at hid
  · cases hid
  · rw [slot_invalidate]
    exact rest.not_locked hid

theorem AtRest.clear (rest : cache.AtRest) : cache.clear.AtRest where
  tidy := rest.tidy.of_sublist (List.nil_sublist _) (Nat.le_refl _)
  free _ := rfl

end Locator.Cache
