import Locator.Cache.Callers
import Locator.Proofs.Cache.Slots

/-!
# Sections of a call

What one section of one caller does, said once for all invariants. `Advances` has a constructor for
every section, and no proof past this module opens `Call.advance`.

* `Advances.of_advance`, `Call.Fits.advance_cases`: what a caller does, and when it does nothing
* `Advances.holders_balance`, `Advances.locked_balance`: handles and locks change hands, none gets
  lost
* `Advances.slotOf?_kept`: the two ways in which a key can lose its slot
* `Advances.entry_eq`: only the end of a fetch changes what is in a slot
-/

namespace Locator.Cache

variable {α ε : Type}

/-- A section takes a call from one phase and cache to another. -/
inductive Advances (now : Nat) :
    Call α ε → Phase α ε → Cache α → Phase α ε → Cache α → Prop where
  | take {cache : Cache α} {key : String} {outcome : Outcome α ε} :
      Advances now (.fetch key outcome) .outside cache (.holding (cache.take key).1)
        (cache.take key).2
  | hit {cache : Cache α} {key : String} {outcome : Outcome α ε} {id : SlotId} {value : α}
      (unlocked : (cache.slot id).locked = false) (fresh : cache.freshIn? id now = some value) :
      Advances now (.fetch key outcome) (.holding id) cache (.leaving [id] (.hit value)) cache
  | lock {cache : Cache α} {key : String} {outcome : Outcome α ε} {id : SlotId}
      (unlocked : (cache.slot id).locked = false) (stale : cache.freshIn? id now = none) :
      Advances now (.fetch key outcome) (.holding id) cache (.fetching id) (cache.lock id)
  | fail {cache : Cache α} {key : String} {error : ε} {id : SlotId} :
      Advances now (.fetch key (.error error)) (.fetching id) cache (.failed id)
        (cache.record id (.error error : Outcome α ε) now)
  | record {cache : Cache α} {key : String} {outcome : Outcome α ε} {id : SlotId}
      (noError : outcome.isError = false) :
      Advances now (.fetch key outcome) (.fetching id) cache (.leaving [id] (.fetched outcome))
        (cache.record id outcome now)
  | release {cache : Cache α} {key : String} {outcome : Outcome α ε} {id : SlotId} :
      Advances now (.fetch key outcome) (.failed id) cache (.leaving [id] (.fetched outcome))
        (cache.release key id)
  | miss {cache : Cache α} {key : String} (unknown : cache.slotOf? key = none) :
      Advances now (.get key) .outside cache (.finished (.got none)) cache
  | hold {cache : Cache α} {key : String} {id : SlotId} (known : cache.slotOf? key = some id) :
      Advances now (.get key) .outside cache (.holding id) (cache.hold id)
  | look {cache : Cache α} {key : String} {id : SlotId}
      (unlocked : (cache.slot id).locked = false) :
      Advances now (.get key) (.holding id) cache
        (.leaving [id] (.got (cache.freshIn? id now))) cache
  | holdAll {cache : Cache α} :
      Advances now .size .outside cache
        (.counting (cache.index.map Prod.snd) (cache.index.map Prod.snd) 0)
        ((cache.index.map Prod.snd).foldl Cache.hold cache)
  | count {cache : Cache α} {id : SlotId} {held rest : List SlotId} {count : Nat}
      (unlocked : (cache.slot id).locked = false) :
      Advances now .size (.counting held (id :: rest) count) cache
        (.counting held rest (count + if (cache.slot id).entry.isSome then 1 else 0)) cache
  | counted {cache : Cache α} {held : List SlotId} {count : Nat} :
      Advances now .size (.counting held [] count) cache (.leaving held (.counted count)) cache
  | readClock {cache : Cache α} : Advances now .purge .outside cache (.purging now) cache
  | purge {cache : Cache α} {since : Nat} :
      Advances now .purge (.purging since) cache (.finished (.purged (cache.purge since).1))
        (cache.purge since).2
  | drop {cache : Cache α} {call : Call α ε} {id : SlotId} {held : List SlotId}
      {reply : Reply α ε} :
      Advances now call (.leaving (id :: held) reply) cache (.leaving held reply) (cache.drop id)
  | finish {cache : Cache α} {call : Call α ε} {reply : Reply α ε} :
      Advances now call (.leaving [] reply) cache (.finished reply) cache

theorem Advances.of_advance {now : Nat} {call : Call α ε} {phase phase' : Phase α ε}
    {cache cache' : Cache α} (h : call.advance cache now phase = some (phase', cache')) :
    Advances now call phase cache phase' cache' := by
  -- the cases are the sections of the callers, in their order
  unfold Call.advance at h
  split at h
  · cases h
    exact .take
  · -- a fetch that holds its slot waits for the lock, then takes a fresh value or starts
    rename_i id
    cases hlocked : (cache.slot id).locked with
    | true => simp [hlocked] at h
    | false =>
      cases hfresh : cache.freshIn? id now with
      | some value =>
        simp only [hlocked, hfresh, Bool.false_eq_true, if_false] at h
        cases h
        exact .hit hlocked hfresh
      | none =>
        simp only [hlocked, hfresh, Bool.false_eq_true, if_false] at h
        cases h
        exact .lock hlocked hfresh
  · -- its supplier has ended
    rename_i outcome id
    cases outcome with
    | error error => cases h; exact .fail
    | value value => cases h; exact .record rfl
    | aborted => cases h; exact .record rfl
  · cases h
    exact .release
  · -- a lookup
    rename_i key
    cases hkey : cache.slotOf? key with
    | none => simp only [hkey] at h; cases h; exact .miss hkey
    | some id => simp only [hkey] at h; cases h; exact .hold hkey
  · rename_i id
    split at h
    · exact nomatch h
    · rename_i hlocked
      cases h
      exact .look (by simpa using hlocked)
  · cases h
    exact .holdAll
  · cases h
    exact .counted
  · -- a count goes from slot to slot and waits at those that are locked
    rename_i id rest count
    split at h
    · exact nomatch h
    · rename_i hlocked
      cases h
      exact .count (by simpa using hlocked)
  · cases h
    exact .readClock
  · cases h
    exact .purge
  · cases h
    exact .finish
  · cases h
    exact .drop
  · exact nomatch h

/-! ## Where a call can be -/

/-- The reply a caller knows already. -/
def Phase.reply? : Phase α ε → Option (Reply α ε)
  | .leaving _ reply | .finished reply => some reply
  | _ => none

/-- The supplier of the call runs or has run. -/
def Phase.hasRun : Phase α ε → Bool
  | .fetching _ | .failed _ => true
  | .leaving _ (.fetched _) | .finished (.fetched _) => true
  | _ => false

/-- The replies that a call can have. -/
def Call.Expects : Call α ε → Reply α ε → Prop
  | .fetch _ outcome, reply => reply = .fetched outcome ∨ ∃ value, reply = .hit value
  | .get _, reply => ∃ value, reply = .got value
  | .size, reply => ∃ count, reply = .counted count
  | .purge, reply => ∃ count, reply = .purged count

/-- The phases that a call goes through. -/
def Call.Fits (call : Call α ε) : Phase α ε → Prop
  | .outside => True
  | .holding _ => (∃ key outcome, call = .fetch key outcome) ∨ ∃ key, call = .get key
  | .fetching _ => ∃ key outcome, call = .fetch key outcome
  | .failed _ => ∃ key error, call = .fetch key (.error error)
  | .counting _ _ _ => call = .size
  | .purging _ => call = .purge
  | .leaving _ reply | .finished reply => call.Expects reply

namespace Call.Fits

variable {now : Nat} {call : Call α ε} {phase phase' : Phase α ε} {cache cache' : Cache α}

theorem advances (h : Advances now call phase cache phase' cache') (fits : call.Fits phase) :
    call.Fits phase' := by
  cases h with
  | take => exact .inl ⟨_, _, rfl⟩
  | hit => exact .inr ⟨_, rfl⟩
  | lock => exact ⟨_, _, rfl⟩
  | fail => exact ⟨_, _, rfl⟩
  | record => exact .inl rfl
  | release => exact .inl rfl
  | hold => exact .inr ⟨_, rfl⟩
  | miss | look | counted | purge => exact ⟨_, rfl⟩
  | holdAll | count | readClock => rfl
  | drop | finish => exact fits

/-- A caller moves on unless it has finished or one of its slots is locked. -/
theorem advance_cases (fits : call.Fits phase) (cache : Cache α) (now : Nat) :
    (∃ reply, phase = .finished reply) ∨ (call.advance cache now phase).isSome ∨
      ∃ id, (cache.slot id).locked = true := by
  -- only two phases wait for a lock: those that hold a slot, and a count on its way
  cases phase with
  | finished reply => exact .inl ⟨reply, rfl⟩
  | outside =>
    right; left
    cases call with
    | get key =>
      simp only [Call.advance]
      split <;> rfl
    | _ => rfl
  | holding id =>
    right
    cases hlocked : (cache.slot id).locked with
    | true => exact .inr ⟨id, hlocked⟩
    | false =>
      left
      obtain ⟨key, outcome, rfl⟩ | ⟨key, rfl⟩ := fits
      · simp only [Call.advance, hlocked, Bool.false_eq_true, if_false]
        split <;> rfl
      · simp [Call.advance, hlocked]
  | fetching id =>
    obtain ⟨key, outcome, rfl⟩ := fits
    right; left
    cases outcome <;> rfl
  | failed id =>
    obtain ⟨key, error, rfl⟩ := fits
    exact .inr (.inl rfl)
  | counting held rest count =>
    cases fits
    right
    cases rest with
    | nil => exact .inl rfl
    | cons id rest =>
      cases hlocked : (cache.slot id).locked with
      | true => exact .inr ⟨id, hlocked⟩
      | false => simp [Call.advance, hlocked]
  | purging since =>
    cases fits
    exact .inr (.inl rfl)
  | leaving held reply =>
    right; left
    cases held <;> cases call <;> rfl

end Call.Fits

/-! ## Holding many slots at once -/

section

variable {cache : Cache α} {key : String}

theorem slot_holdAll (ids : List SlotId) :
    ∀ {cache : Cache α}, (∀ id ∈ ids, id < cache.slots.length) → ∀ j,
      (ids.foldl Cache.hold cache).slot j =
        { entry := (cache.slot j).entry
          holders := (cache.slot j).holders + ids.count j
          locked := (cache.slot j).locked } := by
  induction ids with
  | nil =>
    intro cache _ j
    rfl
  | cons id rest ih =>
    intro cache hids j
    have hid := hids id List.mem_cons_self
    have hrest : ∀ other ∈ rest, other < (cache.hold id).slots.length := by
      intro other hother
      simpa [hold] using hids other (List.mem_cons_of_mem id hother)
    rw [List.foldl_cons, ih hrest j, slot_hold hid, List.count_cons]
    by_cases hj : j = id
    · subst hj
      simp [Nat.add_assoc, Nat.add_comm 1]
    · have hbeq : (id == j) = false := by simpa using Ne.symm hj
      simp [hj, hbeq]

@[simp] theorem slotOf?_holdAll (ids : List SlotId) :
    ∀ {cache : Cache α}, (ids.foldl Cache.hold cache).slotOf? key = cache.slotOf? key := by
  induction ids with
  | nil => intro cache; rfl
  | cons id rest ih => intro cache; rw [List.foldl_cons, ih, slotOf?_hold]

@[simp] theorem ttl_holdAll (ids : List SlotId) :
    ∀ {cache : Cache α}, (ids.foldl Cache.hold cache).ttl = cache.ttl := by
  induction ids with
  | nil => intro cache; rfl
  | cons id rest ih => intro cache; rw [List.foldl_cons, ih]; rfl

theorem Tidy.holdAll (ids : List SlotId) :
    ∀ {cache : Cache α}, cache.Tidy → (ids.foldl Cache.hold cache).Tidy := by
  induction ids with
  | nil => intro cache tidy; exact tidy
  | cons id rest ih => intro cache tidy; exact ih (tidy.modify _)

theorem Tidy.index_ids_lt (tidy : cache.Tidy) :
    ∀ id ∈ cache.index.map Prod.snd, id < cache.slots.length := by
  intro id hid
  obtain ⟨entry, hentry, rfl⟩ := List.mem_map.1 hid
  exact tidy.ids_lt entry hentry

end

/-! ## What a section does to a cache -/

/-- The slots a caller has a handle of. -/
def Phase.handles : Phase α ε → List SlotId
  | .holding id | .fetching id | .failed id => [id]
  | .counting held _ _ | .leaving held _ => held
  | .outside | .purging _ | .finished _ => []

/-- The slots a caller has locked. -/
def Phase.locks : Phase α ε → List SlotId
  | .fetching id => [id]
  | _ => []

theorem Phase.eq_fetching_of_mem_locks {phase : Phase α ε} {id : SlotId} (h : id ∈ phase.locks) :
    phase = .fetching id := by
  cases phase with
  | fetching other => rw [List.mem_singleton.1 h]
  | _ => exact nomatch h

/-- The handles and the locks of a phase are counted in the cache. -/
structure Backs (cache : Cache α) (phase : Phase α ε) : Prop where
  handles_le : ∀ id, phase.handles.count id ≤ (cache.slot id).holders
  locks_le : ∀ id, phase.locks.count id ≤ (cache.slot id).locked.toNat

namespace Backs

variable {cache : Cache α} {phase : Phase α ε} {id : SlotId}

theorem lt_length (backs : Backs cache phase) (h : id ∈ phase.handles) :
    id < cache.slots.length :=
  lt_length_of_holders_pos (Nat.lt_of_lt_of_le (List.count_pos_iff.2 h) (backs.handles_le id))

theorem locked (backs : Backs cache phase) (h : id ∈ phase.locks) :
    (cache.slot id).locked = true := by
  have hpos := Nat.lt_of_lt_of_le (List.count_pos_iff.2 h) (backs.locks_le id)
  cases hlocked : (cache.slot id).locked with
  | true => rfl
  | false =>
    rw [hlocked] at hpos
    exact nomatch hpos

end Backs

namespace Advances

variable {now : Nat} {call : Call α ε} {phase phase' : Phase α ε} {cache cache' : Cache α}

theorem tidy (h : Advances now call phase cache phase' cache') (tidy : cache.Tidy) :
    cache'.Tidy := by
  cases h with
  | take => exact tidy.take
  | release => exact tidy.release
  | holdAll => exact tidy.holdAll _
  | purge => exact tidy.purge
  | lock | fail | record | hold | drop => exact tidy.modify _
  | _ => exact tidy

theorem ttl_eq (h : Advances now call phase cache phase' cache') : cache'.ttl = cache.ttl := by
  cases h <;> simp [Cache.lock, Cache.record, Cache.hold, Cache.drop]

/-- Handles that are handed out and handles that are held stay in balance. -/
theorem holders_balance (h : Advances now call phase cache phase' cache') (tidy : cache.Tidy)
    (backs : Backs cache phase) (j : SlotId) :
    (cache'.slot j).holders + phase.handles.count j =
      (cache.slot j).holders + phase'.handles.count j := by
  cases h with
  | @take _ key =>
    rw [slot_take tidy]
    by_cases hj : j = (cache.take key).1
    · simp [Phase.handles, ← hj]
    · simp [Phase.handles, hj, Ne.symm hj]
  | hold known =>
    rw [slot_hold (tidy.lt_length known)]
    rename_i id
    by_cases hj : j = id
    · simp [Phase.handles, hj]
    · simp [Phase.handles, hj, Ne.symm hj]
  | lock =>
    rw [slot_lock (backs.lt_length (List.mem_singleton_self _))]
    split <;> rfl
  | fail | record =>
    rw [slot_record (backs.lt_length (List.mem_singleton_self _))]
    split <;> rfl
  | release => rw [slot_release]; rfl
  | holdAll =>
    rw [slot_holdAll _ tidy.index_ids_lt]
    simp [Phase.handles]
  | @drop _ _ id held reply =>
    -- the caller holds the handle that it gives back, so the slot has one to lose
    have hle := backs.handles_le j
    rw [slot_drop (backs.lt_length List.mem_cons_self)]
    simp only [Phase.handles, List.count_cons] at hle ⊢
    by_cases hj : j = id
    · subst hj
      simp only [beq_self_eq_true, if_true] at hle ⊢
      omega
    · have hbeq : (id == j) = false := by simpa using Ne.symm hj
      simp [hj, hbeq]
  | purge => simp [Phase.handles]
  | _ => rfl

/-- So do locks. -/
theorem locked_balance (h : Advances now call phase cache phase' cache') (tidy : cache.Tidy)
    (backs : Backs cache phase) (j : SlotId) :
    (cache'.slot j).locked.toNat + phase.locks.count j =
      (cache.slot j).locked.toNat + phase'.locks.count j := by
  cases h with
  | take =>
    rw [slot_take tidy]
    split <;> rfl
  | hold known =>
    rw [slot_hold (tidy.lt_length known)]
    split <;> rfl
  | @lock _ _ _ id unlocked _ =>
    rw [slot_lock (backs.lt_length (List.mem_singleton_self _))]
    by_cases hj : j = id
    · simp [Phase.locks, hj, unlocked]
    · simp [Phase.locks, hj, Ne.symm hj]
  | @fail _ _ _ id | @record _ _ _ id =>
    have hlocked := backs.locked (List.mem_singleton_self id)
    rw [slot_record (backs.lt_length (List.mem_singleton_self _))]
    by_cases hj : j = id
    · simp [Phase.locks, hj, hlocked]
    · simp [Phase.locks, hj, Ne.symm hj]
  | release => rw [slot_release]; rfl
  | holdAll =>
    rw [slot_holdAll _ tidy.index_ids_lt]
    rfl
  | drop =>
    rw [slot_drop (backs.lt_length List.mem_cons_self)]
    split <;> rfl
  | purge => rfl
  | _ => rfl

/-- What a slot holds only changes when a fetch into it ends. -/
theorem entry_eq (h : Advances now call phase cache phase' cache') (tidy : cache.Tidy)
    (backs : Backs cache phase) {j : SlotId} (hj : j ∉ phase.locks) :
    (cache'.slot j).entry = (cache.slot j).entry := by
  cases h with
  | take => exact entry_take tidy j
  | hold known =>
    rw [slot_hold (tidy.lt_length known)]
    split <;> rfl
  | lock =>
    rw [slot_lock (backs.lt_length (List.mem_singleton_self _))]
    split <;> rfl
  | fail | record =>
    rw [slot_record (backs.lt_length (List.mem_singleton_self _)),
      if_neg (fun heq => hj (List.mem_singleton.2 heq))]
  | release => rw [slot_release]
  | holdAll => rw [slot_holdAll _ tidy.index_ids_lt]
  | drop =>
    rw [slot_drop (backs.lt_length List.mem_cons_self)]
    split <;> rfl
  | _ => rfl

/-- A key keeps its slot unless a caller that failed forgets it, which nobody else may hold, or a
purge does, which leaves locked slots and fresh values alone. -/
theorem slotOf?_kept (h : Advances now call phase cache phase' cache') (tidy : cache.Tidy)
    {key : String} {id : SlotId} (hkey : cache.slotOf? key = some id) :
    cache'.slotOf? key = some id ∨
      (∃ outcome, call = .fetch key outcome ∧ phase = .failed id ∧
        (cache.slot id).holders = 1 ∧ cache'.slotOf? key = none) ∨
      ∃ since, call = .purge ∧ phase = .purging since ∧
        cache.keepsInPurge since id = false ∧ cache'.slotOf? key = none := by
  cases h with
  | @take _ name =>
    -- even the key of the call itself keeps the slot it had
    left
    rw [slotOf?_take]
    split
    · rename_i heq
      rw [take_fst, ← heq, hkey]
      rfl
    · exact hkey
  | @release _ name outcome failed =>
    -- the slot goes only where it is the one of the key and nobody else holds it
    rw [slotOf?_release]
    split
    · rename_i hgone
      obtain ⟨rfl, hname, hholders⟩ := hgone
      rw [hkey] at hname
      cases hname
      exact .inr (.inl ⟨outcome, rfl, rfl, hholders, rfl⟩)
    · exact .inl hkey
  | @purge _ since =>
    rw [slotOf?_purge tidy, hkey, Option.filter_some]
    cases hkeep : cache.keepsInPurge since id with
    | true => exact .inl rfl
    | false => exact .inr (.inr ⟨since, rfl, rfl, hkeep, rfl⟩)
  | holdAll => exact .inl (by rw [slotOf?_holdAll, hkey])
  | _ => exact .inl hkey

/-- Only a slot without a fresh value gets locked. -/
theorem stale_of_locks (h : Advances now call phase cache phase' cache') {id : SlotId}
    (hid : id ∈ phase'.locks) : cache.freshIn? id now = none := by
  cases h with
  | lock _ stale =>
    rw [List.mem_singleton.1 hid]
    exact stale
  | _ => exact nomatch hid

theorem fetching_of_failed {id : SlotId} (h : Advances now call phase cache (.failed id) cache') :
    phase = .fetching id := by
  cases h
  rfl

/-- A key that gets a slot gets one that was never made before. -/
theorem slotOf?_new (h : Advances now call phase cache phase' cache') (tidy : cache.Tidy)
    {key : String} {id : SlotId} (hkey : cache'.slotOf? key = some id) :
    cache.slotOf? key = some id ∨ cache.slots.length ≤ id := by
  cases h with
  | @take _ name =>
    -- a key without a slot gets the next one, which no key has had
    rw [slotOf?_take] at hkey
    split at hkey
    · rename_i heq
      cases hold : cache.slotOf? name with
      | none =>
        rw [take_fst, hold] at hkey
        cases hkey
        exact .inr (Nat.le_refl _)
      | some known =>
        rw [take_fst, hold] at hkey
        cases hkey
        exact .inl (by rw [heq, hold]; rfl)
    · exact .inl hkey
  | release =>
    rw [slotOf?_release] at hkey
    split at hkey
    · exact nomatch hkey
    · exact .inl hkey
  | purge =>
    rw [slotOf?_purge tidy] at hkey
    exact .inl (Option.filter_eq_some_iff.1 hkey).1
  | holdAll => exact .inl (by rwa [slotOf?_holdAll] at hkey)
  | _ => exact .inl hkey

end Advances

end Locator.Cache
