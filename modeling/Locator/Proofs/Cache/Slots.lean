import Mathlib.Data.List.Nodup
import Locator.Cache.Basic

/-!
# Slots and the index that leads to them

How each section of a call changes a cache, seen through two views: `slotOf?`, the slot a key leads
to, and `slot`, what is in a slot. A slot that was never made reads as an empty one that nobody
holds, so `take` needs no case of its own for a new slot (`slot_take`).

* `Tidy` says that keys and slots belong together one to one; every section keeps it
* `get?_take`, `get?_lock`, … say what a section does to the values that can be looked up
-/

namespace Locator

/-- What a fetch with this outcome leaves of an entry. -/
def Outcome.entryAfter (outcome : Outcome α ε) (now : Nat) (before : Option (Entry α)) :
    Option (Entry α) :=
  match outcome with
  | .value fresh => some ⟨fresh, now⟩
  | .error _ => none
  | .aborted => before

def Outcome.isError : Outcome α ε → Bool
  | .error _ => true
  | _ => false

namespace Cache

variable {α ε : Type} {cache : Cache α} {key other : String} {id : SlotId} {now : Nat}

/-! ## One slot changed -/

/-- Changing a slot that exists changes that slot and no other. -/
theorem slot_modify (hid : id < cache.slots.length) (change : Slot α → Slot α) (j : SlotId) :
    (cache.modify id change).slot j = if j = id then change (cache.slot j) else cache.slot j := by
  simp only [modify, slot, List.getD_eq_getElem?_getD, List.getElem?_modify]
  by_cases h : j = id
  · subst h
    simp [hid]
  · simp [h, Ne.symm h]

theorem slot_of_length_le (h : cache.slots.length ≤ id) : cache.slot id = {} := by
  simp [slot, List.getElem?_eq_none h]

/-- A slot that somebody holds, or has locked, or filled, exists. -/
theorem lt_length_of_slot_ne (h : cache.slot id ≠ {}) : id < cache.slots.length := by
  by_cases hlt : id < cache.slots.length
  · exact hlt
  · exact absurd (slot_of_length_le (Nat.le_of_not_lt hlt)) h

theorem lt_length_of_holders_pos (h : 0 < (cache.slot id).holders) :
    id < cache.slots.length := by
  apply lt_length_of_slot_ne
  intro heq
  rw [heq] at h
  exact Nat.lt_irrefl 0 h

@[simp] theorem length_slots_modify (change : Slot α → Slot α) :
    (cache.modify id change).slots.length = cache.slots.length := by
  simp [modify]

@[simp] theorem ttl_modify (change : Slot α → Slot α) :
    (cache.modify id change).ttl = cache.ttl := rfl

/-! ## Keys and slots -/

/-- Keys and slots belong together one to one: a key stands once in the index, a slot stands once
in it, and every slot in it exists. -/
structure Tidy (cache : Cache α) : Prop where
  keys_nodup : (cache.index.map Prod.fst).Nodup
  ids_nodup : (cache.index.map Prod.snd).Nodup
  ids_lt : ∀ entry ∈ cache.index, entry.2 < cache.slots.length

theorem tidy_empty (ttl : Duration) : Tidy ({ ttl } : Cache α) where
  keys_nodup := List.nodup_nil
  ids_nodup := List.nodup_nil
  ids_lt := by simp

theorem mem_index_of_slotOf? (h : cache.slotOf? key = some id) : (key, id) ∈ cache.index := by
  obtain ⟨before, after, heq, _⟩ := List.lookup_eq_some_iff.1 h
  simp [heq]

namespace Tidy

theorem slotOf?_eq_some_iff (tidy : cache.Tidy) :
    cache.slotOf? key = some id ↔ (key, id) ∈ cache.index := by
  refine ⟨mem_index_of_slotOf?, fun h => ?_⟩
  obtain ⟨before, after, heq⟩ := List.append_of_mem h
  refine List.lookup_eq_some_iff.2 ⟨before, after, heq, ?_⟩
  intro entry hentry
  have hnodup := tidy.keys_nodup
  rw [heq, List.map_append, List.nodup_append] at hnodup
  have hne := hnodup.2.2 entry.1 (List.mem_map_of_mem hentry) key (by simp)
  simp [Ne.symm hne]

theorem lt_length (tidy : cache.Tidy) (h : cache.slotOf? key = some id) :
    id < cache.slots.length :=
  tidy.ids_lt _ (mem_index_of_slotOf? h)

/-- Two keys never lead to the same slot. -/
theorem key_unique (tidy : cache.Tidy) (h : cache.slotOf? key = some id)
    (h' : cache.slotOf? other = some id) : key = other := by
  have hmem := mem_index_of_slotOf? h
  have hmem' := mem_index_of_slotOf? h'
  have heq := List.inj_on_of_nodup_map tidy.ids_nodup hmem hmem' rfl
  exact congrArg Prod.fst heq

/-- A new index is tidy if it is a part of the old one and no slot was lost. -/
theorem of_sublist {after : Cache α} (tidy : cache.Tidy) (hindex : after.index.Sublist cache.index)
    (hlen : cache.slots.length ≤ after.slots.length) : after.Tidy where
  keys_nodup := tidy.keys_nodup.sublist (hindex.map _)
  ids_nodup := tidy.ids_nodup.sublist (hindex.map _)
  ids_lt entry hentry := Nat.lt_of_lt_of_le (tidy.ids_lt entry (hindex.subset hentry)) hlen

theorem modify (tidy : cache.Tidy) (change : Slot α → Slot α) : (cache.modify id change).Tidy :=
  tidy.of_sublist (List.Sublist.refl _) (by simp)

end Tidy

/-! ## The sections -/

theorem slot_hold (hid : id < cache.slots.length) (j : SlotId) :
    (cache.hold id).slot j =
      if j = id then { cache.slot j with holders := (cache.slot j).holders + 1 }
      else cache.slot j :=
  slot_modify hid _ j

theorem slot_drop (hid : id < cache.slots.length) (j : SlotId) :
    (cache.drop id).slot j =
      if j = id then { cache.slot j with holders := (cache.slot j).holders - 1 }
      else cache.slot j :=
  slot_modify hid _ j

theorem slot_lock (hid : id < cache.slots.length) (j : SlotId) :
    (cache.lock id).slot j =
      if j = id then { cache.slot j with locked := true } else cache.slot j :=
  slot_modify hid _ j

theorem slot_record (hid : id < cache.slots.length) (outcome : Outcome α ε) (j : SlotId) :
    (cache.record id outcome now).slot j =
      if j = id then
        { cache.slot j with
          entry := outcome.entryAfter now (cache.slot j).entry
          locked := false }
      else cache.slot j := by
  rw [record, slot_modify hid]
  cases outcome <;> rfl

@[simp] theorem slotOf?_hold : (cache.hold id).slotOf? key = cache.slotOf? key := rfl

@[simp] theorem slotOf?_drop : (cache.drop id).slotOf? key = cache.slotOf? key := rfl

@[simp] theorem slotOf?_lock : (cache.lock id).slotOf? key = cache.slotOf? key := rfl

@[simp] theorem slotOf?_record (outcome : Outcome α ε) :
    (cache.record id outcome now).slotOf? key = cache.slotOf? key := rfl

/-- A key that has a slot gets that one, any other key the next one that was never made. -/
theorem take_fst : (cache.take key).1 = (cache.slotOf? key).getD cache.slots.length := by
  cases h : cache.slotOf? key <;> simp [take, h]

theorem slotOf?_take (k : String) :
    (cache.take key).2.slotOf? k =
      if k = key then some (cache.take key).1 else cache.slotOf? k := by
  cases h : cache.slotOf? key with
  | some id =>
    simp only [take, h, slotOf?_hold]
    by_cases hk : k = key
    · rw [if_pos hk, hk, h]
    · rw [if_neg hk]
  | none =>
    simp only [take, h]
    by_cases hk : k = key
    · simp [slotOf?, hk]
    · have hbeq : (k == key) = false := by simpa using hk
      simp [slotOf?, List.lookup_cons, hk, hbeq]

theorem slot_take (tidy : cache.Tidy) (j : SlotId) :
    (cache.take key).2.slot j =
      if j = (cache.take key).1 then
        { cache.slot j with holders := (cache.slot j).holders + 1 }
      else cache.slot j := by
  cases h : cache.slotOf? key with
  | some id =>
    simp only [take, h]
    exact slot_hold (tidy.lt_length h) j
  | none =>
    simp only [take, h]
    by_cases hj : j = cache.slots.length
    · rw [if_pos hj, hj, slot_of_length_le (Nat.le_refl _)]
      simp [slot]
    · -- one position past the end there is the new slot, further on there is none
      rw [if_neg hj]
      simp only [slot, List.getD_eq_getElem?_getD, List.getElem?_append]
      split
      · rfl
      · rename_i hlt
        have hle : cache.slots.length + 1 ≤ j :=
          Nat.lt_of_le_of_ne (Nat.le_of_not_lt hlt) (Ne.symm hj)
        have hnone : cache.slots[j]? = none := List.getElem?_eq_none (Nat.le_of_succ_le hle)
        have hsub : j - cache.slots.length ≠ 0 := Nat.sub_ne_zero_of_lt hle
        simp [hnone, hsub]

theorem length_slots_take :
    (cache.take key).2.slots.length =
      cache.slots.length + if cache.slotOf? key = none then 1 else 0 := by
  cases h : cache.slotOf? key <;> simp [take, h, hold]

theorem take_fst_lt (tidy : cache.Tidy) :
    (cache.take key).1 < (cache.take key).2.slots.length := by
  cases h : cache.slotOf? key with
  | some id =>
    have := tidy.lt_length h
    simpa [take, h, hold] using this
  | none => simp [take, h]

theorem take_of_slotOf? (h : cache.slotOf? key = some id) :
    cache.take key = (id, cache.hold id) := by
  rw [take, h]

/-- To let a slot go right after taking hold of it leaves every slot as it was. -/
theorem slot_take_drop (tidy : cache.Tidy) (j : SlotId) :
    ((cache.take key).2.drop (cache.take key).1).slot j = cache.slot j := by
  rw [slot_drop (take_fst_lt tidy), slot_take tidy]
  split <;> rfl

theorem slotOf?_take_drop (h : cache.slotOf? key = some id) (k : String) :
    ((cache.take key).2.drop (cache.take key).1).slotOf? k = cache.slotOf? k := by
  rw [take_of_slotOf? h, slotOf?_drop, slotOf?_hold]

theorem length_slots_take_drop (h : cache.slotOf? key = some id) :
    ((cache.take key).2.drop (cache.take key).1).slots.length = cache.slots.length := by
  rw [take_of_slotOf? h, drop, hold, length_slots_modify, length_slots_modify]

theorem Tidy.take (tidy : cache.Tidy) : (cache.take key).2.Tidy := by
  cases h : cache.slotOf? key with
  | some id =>
    simp only [Cache.take, h]
    exact tidy.modify _
  | none =>
    -- a new entry stands at the front: neither its key nor its slot may be in the index already
    have hkey : key ∉ cache.index.map Prod.fst := by
      intro hmem
      obtain ⟨entry, hentry, rfl⟩ := List.mem_map.1 hmem
      have hne := List.lookup_eq_none_iff.1 h entry hentry
      simp at hne
    have hid : cache.slots.length ∉ cache.index.map Prod.snd := by
      intro hmem
      obtain ⟨entry, hentry, heq⟩ := List.mem_map.1 hmem
      exact absurd (tidy.ids_lt entry hentry) (by rw [heq]; exact Nat.lt_irrefl _)
    simp only [Cache.take, h]
    refine ⟨List.nodup_cons.2 ⟨hkey, tidy.keys_nodup⟩, List.nodup_cons.2 ⟨hid, tidy.ids_nodup⟩, ?_⟩
    intro entry hentry
    rw [List.length_append, List.length_singleton]
    cases List.mem_cons.1 hentry with
    | inl heq => rw [heq]; exact Nat.lt_succ_self _
    | inr hmem => exact Nat.lt_succ_of_lt (tidy.ids_lt entry hmem)

/-! ## Forgetting keys -/

/-- Without a key the index leads there no more, and for other keys where it did. -/
theorem lookup_filter_ne (index : List (String × SlotId)) (k : String) :
    (index.filter (·.1 ≠ key)).lookup k = if k = key then none else index.lookup k := by
  induction index with
  | nil => simp
  | cons entry rest ih =>
    obtain ⟨name, id⟩ := entry
    by_cases hname : name = key
    · subst hname
      rw [List.filter_cons_of_neg (by simp), ih]
      by_cases hk : k = name
      · rw [if_pos hk, if_pos hk]
      · have hbeq : (k == name) = false := by simpa using hk
        rw [if_neg hk, if_neg hk, List.lookup_cons, hbeq]
    · -- this entry stays, and where it answers the key asked for is another one
      rw [List.filter_cons_of_pos (by simpa using hname), List.lookup_cons, List.lookup_cons, ih]
      cases hbeq : k == name with
      | true =>
        have hk : k ≠ key := by
          rw [eq_of_beq hbeq]
          exact hname
        simp [hk]
      | false => rfl

theorem slotOf?_release (k : String) :
    (cache.release key id).slotOf? k =
      if k = key ∧ cache.slotOf? key = some id ∧ (cache.slot id).holders = 1 then none
      else cache.slotOf? k := by
  by_cases h : cache.slotOf? key = some id ∧ (cache.slot id).holders = 1
  · rw [release, if_pos h]
    have hlookup : (cache.index.filter (·.1 ≠ key)).lookup k =
        if k = key then none else cache.index.lookup k := lookup_filter_ne cache.index k
    by_cases hk : k = key
    · rw [if_pos ⟨hk, h⟩]
      rwa [if_pos hk] at hlookup
    · rw [if_neg (fun hand => hk hand.1)]
      rwa [if_neg hk] at hlookup
  · rw [release, if_neg h, if_neg (fun hand => h hand.2)]

@[simp] theorem slot_release (j : SlotId) : (cache.release key id).slot j = cache.slot j := by
  unfold release
  split <;> rfl

@[simp] theorem length_slots_release :
    (cache.release key id).slots.length = cache.slots.length := by
  unfold release
  split <;> rfl

@[simp] theorem ttl_release : (cache.release key id).ttl = cache.ttl := by
  unfold release
  split <;> rfl

theorem Tidy.release (tidy : cache.Tidy) : (cache.release key id).Tidy := by
  unfold Cache.release
  split
  · exact tidy.of_sublist List.filter_sublist (Nat.le_refl _)
  · exact tidy

theorem slotOf?_invalidate (k : String) :
    (cache.invalidate key).2.slotOf? k = if k = key then none else cache.slotOf? k := by
  cases h : cache.slotOf? key with
  | none =>
    simp only [invalidate, h]
    split
    · rename_i hk
      rw [hk, h]
    · rfl
  | some id =>
    simp only [invalidate, h]
    exact lookup_filter_ne cache.index k

@[simp] theorem slot_invalidate (j : SlotId) :
    (cache.invalidate key).2.slot j = cache.slot j := by
  unfold invalidate
  split <;> rfl

@[simp] theorem ttl_invalidate : (cache.invalidate key).2.ttl = cache.ttl := by
  unfold invalidate
  split <;> rfl

@[simp] theorem length_slots_invalidate :
    (cache.invalidate key).2.slots.length = cache.slots.length := by
  unfold invalidate
  split <;> rfl

theorem Tidy.invalidate (tidy : cache.Tidy) : (cache.invalidate key).2.Tidy := by
  unfold Cache.invalidate
  split
  · exact tidy
  · exact tidy.of_sublist List.filter_sublist (Nat.le_refl _)

/-- A purge leaves a key alone exactly when it keeps its slot. -/
theorem slotOf?_purge (tidy : cache.Tidy) :
    (cache.purge now).2.slotOf? key = (cache.slotOf? key).filter (cache.keepsInPurge now) := by
  have after : (cache.purge now).2.Tidy :=
    tidy.of_sublist List.filter_sublist (Nat.le_refl _)
  apply Option.ext
  intro id
  rw [after.slotOf?_eq_some_iff, Option.filter_eq_some_iff, tidy.slotOf?_eq_some_iff]
  simp [purge, List.mem_filter]

theorem Tidy.purge (tidy : cache.Tidy) : (cache.purge now).2.Tidy :=
  tidy.of_sublist List.filter_sublist (Nat.le_refl _)

@[simp] theorem slot_purge (j : SlotId) : (cache.purge now).2.slot j = cache.slot j := rfl

@[simp] theorem ttl_purge : (cache.purge now).2.ttl = cache.ttl := rfl

/-! ## What can be looked up -/

/-- What is stale now stays so. -/
theorem isFresh_of_le {entry : Entry α} {ttl : Duration} {later : Nat} (hle : now ≤ later)
    (h : entry.isFresh ttl later = true) : entry.isFresh ttl now = true := by
  simp only [Entry.isFresh, decide_eq_true_eq] at h ⊢
  exact Nat.le_trans (Nat.sub_le_sub_right hle _) h

/-- A lookup depends on the slot of its key, the entry in it and the time to live. -/
theorem get?_congr {after : Cache α} (hkey : after.slotOf? key = cache.slotOf? key)
    (hentry : ∀ id, cache.slotOf? key = some id → (after.slot id).entry = (cache.slot id).entry)
    (httl : after.ttl = cache.ttl) : after.get? key now = cache.get? key now := by
  unfold get?
  rw [hkey]
  cases h : cache.slotOf? key with
  | none => simp only [Option.bind_none]
  | some id => simp only [Option.bind_some, freshIn?, hentry id h, httl]

theorem freshIn?_eq_none_of_le {later : Nat} (hle : now ≤ later)
    (h : cache.freshIn? id now = none) : cache.freshIn? id later = none := by
  rw [freshIn?, Option.map_eq_none_iff, Option.filter_eq_none_iff] at h ⊢
  intro entry hentry hfresh
  exact h entry hentry (isFresh_of_le hle hfresh)

/-- A purge takes what is neither locked nor fresh. -/
theorem keepsInPurge_eq_false_iff :
    cache.keepsInPurge now id = false ↔
      (cache.slot id).locked = false ∧ cache.freshIn? id now = none := by
  simp [keepsInPurge]

theorem get?_of_slotOf? (h : cache.slotOf? key = some id) :
    cache.get? key now = cache.freshIn? id now := by
  simp [get?, h]

theorem get?_eq_none_of_slotOf? (h : cache.slotOf? key = none) : cache.get? key now = none := by
  simp [get?, h]

@[simp] theorem ttl_take : (cache.take key).2.ttl = cache.ttl := by
  cases h : cache.slotOf? key <;> simp [take, h, hold]

theorem entry_take (tidy : cache.Tidy) (j : SlotId) :
    ((cache.take key).2.slot j).entry = (cache.slot j).entry := by
  rw [slot_take tidy]
  split <;> rfl

/-- To hold a slot, be it a new one, changes no lookup. -/
theorem get?_take (tidy : cache.Tidy) (k : String) :
    (cache.take key).2.get? k now = cache.get? k now := by
  by_cases hk : k = key ∧ cache.slotOf? key = none
  · -- a new slot is empty, and without one there was nothing to find either
    obtain ⟨rfl, hnone⟩ := hk
    have hfst : (cache.take k).1 = cache.slots.length := by rw [take_fst, hnone]; rfl
    have hslot : (cache.take k).2.slotOf? k = some cache.slots.length := by
      rw [slotOf?_take, if_pos rfl, hfst]
    rw [get?_of_slotOf? hslot, get?_eq_none_of_slotOf? hnone, freshIn?, entry_take tidy,
      slot_of_length_le (Nat.le_refl _)]
    rfl
  · refine get?_congr ?_ (fun id _ => entry_take tidy id) ttl_take
    rw [slotOf?_take]
    split
    · rename_i heq
      subst heq
      cases hsome : cache.slotOf? k with
      | none => exact absurd ⟨rfl, hsome⟩ hk
      | some id => rw [take_fst, hsome]; rfl
    · rfl

theorem Tidy.settle (tidy : cache.Tidy) (outcome : Outcome α ε) :
    (cache.settle key id outcome now).Tidy := by
  cases outcome with
  | error _ => exact ((tidy.modify _).release).modify _
  | _ => exact (tidy.modify _).modify _

@[simp] theorem ttl_settle (outcome : Outcome α ε) :
    (cache.settle key id outcome now).ttl = cache.ttl := by
  cases outcome <;> simp [settle, drop, record]

@[simp] theorem length_slots_settle (outcome : Outcome α ε) :
    (cache.settle key id outcome now).slots.length = cache.slots.length := by
  cases outcome <;> simp [settle, drop, record]

theorem slot_settle (hid : id < cache.slots.length) (outcome : Outcome α ε) (j : SlotId) :
    (cache.settle key id outcome now).slot j =
      if j = id then
        { entry := outcome.entryAfter now (cache.slot j).entry
          holders := (cache.slot j).holders - 1
          locked := false }
      else cache.slot j := by
  -- record, release after an error, drop: only the first and the last change a slot
  have hrecord : id < (cache.record id outcome now).slots.length := by simpa [record] using hid
  cases outcome with
  | error error =>
    have hrelease : id <
        ((cache.record id (.error error : Outcome α ε) now).release key id).slots.length := by
      rwa [length_slots_release]
    simp only [settle, slot_drop hrelease, slot_release, slot_record hid]
    split <;> rfl
  | _ =>
    simp only [settle, slot_drop hrecord, slot_record hid]
    split <;> rfl

/-- Only a failure takes the key out of the index, and only when it still leads to the slot. -/
theorem slotOf?_settle (hid : id < cache.slots.length) (hholders : (cache.slot id).holders = 1)
    (outcome : Outcome α ε) (k : String) :
    (cache.settle key id outcome now).slotOf? k =
      if outcome.isError ∧ k = key ∧ cache.slotOf? key = some id then none
      else cache.slotOf? k := by
  cases outcome with
  | error error =>
    simp [settle, slotOf?_release, slot_record hid, hholders, Outcome.isError]
  | _ => simp [settle, Outcome.isError]

/-- After a fetch its key gives what the outcome left, if it still leads to the slot; nothing else
changes. -/
theorem get?_settle (hid : id < cache.slots.length) (hholders : (cache.slot id).holders = 1)
    (hown : ∀ k, cache.slotOf? k = some id → k = key) (outcome : Outcome α ε) (k : String)
    (later : Nat) :
    (cache.settle key id outcome now).get? k later =
      if k = key ∧ cache.slotOf? key = some id then
        ((outcome.entryAfter now (cache.slot id).entry).filter (·.isFresh cache.ttl later)).map
          (·.value)
      else cache.get? k later := by
  have hslotOf : (cache.settle key id outcome now).slotOf? k =
      if outcome.isError ∧ k = key ∧ cache.slotOf? key = some id then none
      else cache.slotOf? k := slotOf?_settle hid hholders outcome k
  by_cases hkey : k = key ∧ cache.slotOf? key = some id
  · -- an error takes the key away, any other end leaves it with what was recorded
    obtain ⟨rfl, hsome⟩ := hkey
    rw [if_pos ⟨rfl, hsome⟩]
    cases outcome with
    | error error =>
      rw [if_pos ⟨rfl, rfl, hsome⟩] at hslotOf
      rw [get?_eq_none_of_slotOf? hslotOf]
      rfl
    | _ =>
      rw [if_neg (by simp [Outcome.isError]), hsome] at hslotOf
      rw [get?_of_slotOf? hslotOf, freshIn?, slot_settle hid, if_pos rfl, ttl_settle]
  · -- the slot is not the one the key leads to, so what a lookup sees is unchanged
    rw [if_neg (fun hand => hkey hand.2)] at hslotOf
    rw [if_neg hkey]
    refine get?_congr hslotOf ?_ (ttl_settle _)
    intro j hj
    rw [slot_settle hid, if_neg]
    rintro rfl
    have hk := hown k hj
    subst hk
    exact hkey ⟨rfl, hj⟩

/-- A purge changes no lookup, now or later. -/
theorem get?_purge (tidy : cache.Tidy) {later : Nat} (hle : now ≤ later) :
    (cache.purge now).2.get? key later = cache.get? key later := by
  cases hkey : cache.slotOf? key with
  | none =>
    rw [get?_eq_none_of_slotOf? hkey, get?_eq_none_of_slotOf?]
    rw [slotOf?_purge tidy, hkey]
    rfl
  | some id =>
    cases hkeep : cache.keepsInPurge now id with
    | true =>
      refine get?_congr ?_ (fun _ _ => rfl) rfl
      rw [slotOf?_purge tidy, hkey, Option.filter_some, if_pos hkeep]
    | false =>
      -- what the purge drops is stale already
      have hgone : (cache.purge now).2.slotOf? key = none := by
        rw [slotOf?_purge tidy, hkey, Option.filter_some, hkeep]
        rfl
      rw [get?_eq_none_of_slotOf? hgone, get?_of_slotOf? hkey]
      exact (freshIn?_eq_none_of_le hle (keepsInPurge_eq_false_iff.1 hkeep).2).symm

end Cache

end Locator
