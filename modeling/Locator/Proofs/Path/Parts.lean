import Locator.Path.Basic

/-!
# The parts of a path

A path seen as the texts between its separators (`Text.split '/'`), and what the functions on
characters do to them. `split` is the `splitOn` of the core library, and joining with separators
undoes it.

* `split_append`: the parts of two texts with a separator between them
* `beforeLastSlash_eq_some_iff`: the last part is what `beforeLastSlash` takes away
* `mem_inner_split_iff`: a part that is neither the first nor the last stands between separators
* `leftmostClimb_iff`: `splitClimb` finds the leftmost `/../`
* `cancelClimb_eq_none_iff`: when there is nothing to cancel
-/

namespace Locator.Text

variable {separator : Char} {text part : List Char}

theorem split_eq_splitOn (separator : Char) (text : List Char) :
    split separator text = text.splitOn separator := by
  induction text with
  | nil => rfl
  | cons c rest ih =>
    obtain ⟨first, others, hrest⟩ := List.exists_cons_of_ne_nil (split_ne_nil separator rest)
    rw [List.splitOn_cons_eq_if_modifyHead, ← ih, split, hrest]
    by_cases h : c = separator <;> simp [h]

/-- The parts of two texts with a separator between them are the parts of the one and the parts of
the other. -/
theorem split_append (separator : Char) (front back : List Char) :
    split separator (front ++ separator :: back) =
      split separator front ++ split separator back := by
  simp only [split_eq_splitOn, List.splitOn_append_cons_self]

theorem split_of_not_mem (h : separator ∉ text) : split separator text = [text] := by
  rw [split_eq_splitOn, List.splitOn_eq_singleton h]

theorem intercalate_split (separator : Char) (text : List Char) :
    [separator].intercalate (split separator text) = text := by
  rw [split_eq_splitOn, List.intercalate_splitOn]

theorem split_intercalate {parts : List (List Char)} (h : ∀ part ∈ parts, separator ∉ part)
    (hne : parts ≠ []) : split separator ([separator].intercalate parts) = parts := by
  rw [split_eq_splitOn, List.splitOn_intercalate separator h hne]

theorem split_injective (separator : Char) {text other : List Char}
    (h : split separator text = split separator other) : text = other := by
  rw [← intercalate_split separator text, h, intercalate_split]

theorem not_mem_of_mem_split (h : part ∈ split separator text) : separator ∉ part := by
  induction text generalizing part with
  | nil =>
    rw [split, List.mem_singleton] at h
    simp [h]
  | cons c rest ih =>
    obtain ⟨first, others, hrest⟩ := List.exists_cons_of_ne_nil (split_ne_nil separator rest)
    rw [hrest] at ih
    rw [split, hrest] at h
    split at h
    · obtain rfl | hmem := List.mem_cons.1 h
      · simp
      · exact ih hmem
    · next hc =>
      obtain rfl | hmem := List.mem_cons.1 h
      · rw [List.mem_cons, not_or]
        exact ⟨Ne.symm hc, ih List.mem_cons_self⟩
      · exact ih (List.mem_cons_of_mem first hmem)

/-- A character other than the separator is in one of the parts. -/
theorem exists_mem_split {c : Char} (hc : c ≠ separator) (h : c ∈ text) :
    ∃ part ∈ split separator text, c ∈ part := by
  -- a separator starts a new part; any other character goes into the first part of what follows
  induction text with
  | nil => exact absurd h List.not_mem_nil
  | cons d rest ih =>
    obtain ⟨first, others, hrest⟩ := List.exists_cons_of_ne_nil (split_ne_nil separator rest)
    rw [hrest] at ih
    rw [split, hrest]
    by_cases hd : d = separator
    · rw [if_pos hd]
      obtain rfl | hmem := List.mem_cons.1 h
      · exact absurd hd hc
      · obtain ⟨part, hpart, hcpart⟩ := ih hmem
        exact ⟨part, List.mem_cons_of_mem _ hpart, hcpart⟩
    · rw [if_neg hd]
      obtain rfl | hmem := List.mem_cons.1 h
      · exact ⟨_, List.mem_cons_self, List.mem_cons_self⟩
      · obtain ⟨part, hpart, hcpart⟩ := ih hmem
        obtain rfl | hothers := List.mem_cons.1 hpart
        · exact ⟨_, List.mem_cons_self, List.mem_cons_of_mem d hcpart⟩
        · exact ⟨part, List.mem_cons_of_mem _ hothers, hcpart⟩

theorem exists_eq_concat {α : Type} {l : List α} (h : l ≠ []) : ∃ init last, l = init ++ [last] :=
  ⟨l.dropLast, l.getLast h, (List.dropLast_concat_getLast h).symm⟩

/-- The last part of a text, and the parts in front of it. -/
theorem exists_split_eq (separator : Char) (text : List Char) :
    ∃ dirs last, split separator text = dirs ++ [last] :=
  exists_eq_concat (split_ne_nil separator text)

theorem eq_of_split_eq_singleton (h : split separator text = [part]) :
    text = part ∧ separator ∉ part := by
  refine ⟨?_, not_mem_of_mem_split (h ▸ List.mem_singleton_self part)⟩
  rw [← intercalate_split separator text, h, List.intercalate_singleton]

/-- Where the parts of a text are cut in two, a separator stands in the text. -/
theorem exists_of_split_eq_append {former latter : List (List Char)} (hformer : former ≠ [])
    (hlatter : latter ≠ []) (h : split separator text = former ++ latter) :
    ∃ front back, text = front ++ separator :: back ∧
      split separator front = former ∧ split separator back = latter := by
  have hfree : ∀ part ∈ former ++ latter, separator ∉ part := fun part hpart =>
    not_mem_of_mem_split (h ▸ hpart)
  have hfront : split separator ([separator].intercalate former) = former :=
    split_intercalate (fun part hpart => hfree part (List.mem_append_left _ hpart)) hformer
  have hback : split separator ([separator].intercalate latter) = latter :=
    split_intercalate (fun part hpart => hfree part (List.mem_append_right _ hpart)) hlatter
  refine ⟨_, _, split_injective separator ?_, hfront, hback⟩
  rw [split_append, hfront, hback, h]

end Locator.Text

namespace Locator.Path

open Text

variable {path front back before after part : List Char}

/-- The part that leads one level up. -/
def up : List Char := ['.', '.']

/-- The text `/../`: a step up that is followed by something. -/
def climb : List Char := ['/', '.', '.', '/']

theorem climb_append (after : List Char) : climb ++ after = '/' :: (up ++ '/' :: after) := rfl

/-! ## The last part -/

theorem beforeLastSlash_eq_none_iff : beforeLastSlash path = none ↔ '/' ∉ path := by
  induction path with
  | nil => simp [beforeLastSlash]
  | cons c rest ih =>
    rw [beforeLastSlash, List.mem_cons, not_or]
    cases hrest : beforeLastSlash rest with
    | none =>
      have hnot := ih.1 hrest
      by_cases hc : c = '/'
      · simp [hc]
      · simp [hc, hnot, Ne.symm hc]
    | some kept =>
      have hmem : ¬ '/' ∉ rest := fun h => by simp [ih.2 h] at hrest
      simp [hmem]

theorem beforeLastSlash_eq_some_iff :
    beforeLastSlash path = some front ↔ ∃ last, '/' ∉ last ∧ path = front ++ '/' :: last := by
  induction path generalizing front with
  | nil => simp [beforeLastSlash]
  | cons c rest ih =>
    rw [beforeLastSlash]
    cases hrest : beforeLastSlash rest with
    | none =>
      have hnot := beforeLastSlash_eq_none_iff.1 hrest
      constructor
      · intro h
        obtain ⟨rfl, h⟩ := Option.ite_none_right_eq_some.1 h
        obtain rfl := Option.some.inj h
        exact ⟨rest, hnot, rfl⟩
      · rintro ⟨last, -, heq⟩
        cases front with
        | nil =>
          obtain ⟨rfl, -⟩ := List.cons.inj heq
          rfl
        | cons d tail =>
          -- a separator further back would be one of `rest`
          obtain ⟨-, htail⟩ := List.cons.inj heq
          exact absurd (htail ▸ List.mem_append_right tail List.mem_cons_self) hnot
    | some kept =>
      obtain ⟨last, hlast, hkept⟩ := ih.1 hrest
      constructor
      · intro h
        obtain rfl := Option.some.inj h
        exact ⟨last, hlast, by rw [hkept]; rfl⟩
      · rintro ⟨last', hlast', heq⟩
        cases front with
        | nil =>
          obtain ⟨-, htail⟩ := List.cons.inj heq
          exact absurd (by rw [← htail, hkept]; simp) hlast'
        | cons d tail =>
          obtain ⟨rfl, htail⟩ := List.cons.inj heq
          have hsome := ih.2 ⟨last', hlast', htail⟩
          obtain rfl := Option.some.inj (hrest.symm.trans hsome)
          rfl

/-! ## The leftmost `/../` -/

/-- The leftmost `/../` of a path stands behind `before`. -/
def LeftmostClimb (path before : List Char) : Prop :=
  before ++ climb <+: path ∧ ∀ other, other ++ climb <+: path → before.length ≤ other.length

theorem eq_of_splitClimb (h : splitClimb path = some (before, after)) :
    path = before ++ climb ++ after := by
  fun_induction splitClimb path generalizing before with
  | case1 rest =>
    obtain ⟨rfl, rfl⟩ := Prod.mk.inj (Option.some.inj h)
    rfl
  | case2 c rest _ ih =>
    obtain ⟨⟨b, a⟩, hb, he⟩ := Option.map_eq_some_iff.1 h
    obtain ⟨rfl, rfl⟩ := Prod.mk.inj he
    rw [ih hb]
    rfl
  | case3 => cases h

theorem length_le_of_splitClimb (h : splitClimb path = some (before, after))
    (hother : front ++ climb <+: path) : before.length ≤ front.length := by
  fun_induction splitClimb path generalizing before front with
  | case1 rest =>
    obtain ⟨rfl, -⟩ := Prod.mk.inj (Option.some.inj h)
    exact Nat.zero_le _
  | case2 c rest hstart ih =>
    obtain ⟨⟨b, a⟩, hb, he⟩ := Option.map_eq_some_iff.1 h
    obtain ⟨rfl, rfl⟩ := Prod.mk.inj he
    cases front with
    | nil =>
      obtain ⟨tail, htail⟩ := hother
      obtain ⟨rfl, hrest⟩ := List.cons.inj htail
      exact (hstart tail rfl hrest.symm).elim
    | cons d front =>
      have hle := ih hb (List.cons_prefix_cons.1 hother).2
      simp only [List.length_cons]
      omega
  | case3 => cases h

theorem splitClimb_isSome (h : front ++ climb <+: path) : (splitClimb path).isSome := by
  fun_induction splitClimb path generalizing front with
  | case1 rest => rfl
  | case2 c rest hstart ih =>
    cases front with
    | nil =>
      obtain ⟨tail, htail⟩ := h
      obtain ⟨rfl, hrest⟩ := List.cons.inj htail
      exact (hstart tail rfl hrest.symm).elim
    | cons d front =>
      rw [Option.isSome_map]
      exact ih (List.cons_prefix_cons.1 h).2
  | case3 =>
    rw [List.prefix_nil, List.append_eq_nil_iff] at h
    cases h.2

theorem leftmostClimb_of_splitClimb (h : splitClimb path = some (before, after)) :
    LeftmostClimb path before := by
  refine ⟨⟨after, (eq_of_splitClimb h).symm⟩, ?_⟩
  intro other hother
  exact length_le_of_splitClimb h hother

theorem leftmostClimb_iff :
    LeftmostClimb path before ↔ ∃ after, splitClimb path = some (before, after) := by
  constructor
  · rintro ⟨hhere, hleast⟩
    obtain ⟨⟨found, after⟩, hfound⟩ := Option.isSome_iff_exists.1 (splitClimb_isSome hhere)
    obtain ⟨hhere', hleast'⟩ := leftmostClimb_of_splitClimb hfound
    have hlen : before.length = found.length :=
      Nat.le_antisymm (hleast found hhere') (hleast' before hhere)
    -- two beginnings of one path with the same length are the same
    have hsame : before = found := by
      have htake := (List.prefix_append before climb).trans hhere
      have htake' := (List.prefix_append found climb).trans hhere'
      rw [List.prefix_iff_eq_take.1 htake, List.prefix_iff_eq_take.1 htake', hlen]
    exact ⟨after, hsame ▸ hfound⟩
  · rintro ⟨after, h⟩
    exact leftmostClimb_of_splitClimb h

/-! ## Parts between separators -/

/-- A part that is neither the first nor the last stands between two separators. -/
theorem mem_inner_split_iff (hpart : '/' ∉ part) :
    part ∈ (split '/' path).tail.dropLast ↔
      ∃ front back, path = front ++ '/' :: (part ++ '/' :: back) := by
  constructor
  · intro h
    obtain ⟨first, inner, hfirst⟩ := List.exists_cons_of_ne_nil (split_ne_nil '/' path)
    rw [hfirst, List.tail_cons] at h
    have hne : inner ≠ [] := by
      rintro rfl
      exact nomatch h
    obtain ⟨init, last, rfl⟩ := exists_eq_concat hne
    rw [List.dropLast_concat] at h
    obtain ⟨former, latter, rfl⟩ := List.append_of_mem h
    have hparts : split '/' path = (first :: former) ++ ([part] ++ (latter ++ [last])) := by
      rw [hfirst]
      simp
    -- cut in front of the part, and behind it
    obtain ⟨front, tail, rfl, -, htail⟩ :=
      exists_of_split_eq_append (List.cons_ne_nil first former) (by simp) hparts
    obtain ⟨middle, back, rfl, hmiddle, -⟩ :=
      exists_of_split_eq_append (List.cons_ne_nil part []) (by simp) htail
    obtain ⟨rfl, -⟩ := eq_of_split_eq_singleton hmiddle
    exact ⟨front, back, rfl⟩
  · rintro ⟨front, back, rfl⟩
    obtain ⟨first, former, hfront⟩ := List.exists_cons_of_ne_nil (split_ne_nil '/' front)
    obtain ⟨latter, last, hback⟩ := exists_split_eq '/' back
    rw [split_append, split_append, split_of_not_mem hpart, hfront, hback, List.cons_append,
      List.tail_cons, ← List.append_assoc, ← List.append_assoc, List.dropLast_concat]
    simp

theorem slash_not_mem_up : '/' ∉ up := by decide

/-- In front of the leftmost `/../` no part but the first is a step up. -/
theorem up_not_mem_of_leftmostClimb (h : LeftmostClimb path before) :
    up ∉ (split '/' before).tail := by
  intro hmem
  -- with a separator behind it, `before` would have a `/../` of its own, further to the left
  have hinner : up ∈ (split '/' (before ++ '/' :: [])).tail.dropLast := by
    obtain ⟨first, rest, hfirst⟩ := List.exists_cons_of_ne_nil (split_ne_nil '/' before)
    rw [hfirst] at hmem
    rw [split_append, split_of_not_mem List.not_mem_nil, hfirst, List.cons_append, List.tail_cons,
      List.dropLast_concat]
    exact hmem
  obtain ⟨front, back, heq⟩ := (mem_inner_split_iff slash_not_mem_up).1 hinner
  have hfurther : front ++ climb <+: path := by
    have hshort : front ++ climb <+: before ++ ['/'] := by
      rw [heq]
      exact ⟨back, by rw [List.append_assoc, climb_append]⟩
    have hlong : before ++ ['/'] <+: before ++ climb :=
      (List.prefix_append_right_inj before).2 ⟨up ++ ['/'], rfl⟩
    exact (hshort.trans hlong).trans h.1
  have hle := h.2 front hfurther
  have hlen := congrArg List.length heq
  simp only [List.length_append, List.length_cons, up, List.length_nil] at hlen
  omega

/-! ## Cancelling -/

theorem cancelClimb_eq_some_iff {shorter : List Char} :
    cancelClimb path = some shorter ↔ ∃ before after kept,
      splitClimb path = some (before, after) ∧ beforeLastSlash before = some kept ∧
        shorter = kept ++ '/' :: after := by
  simp only [cancelClimb, Option.bind_eq_bind, Option.pure_def, Option.bind_eq_some_iff,
    Option.some.injEq, Prod.exists]
  constructor
  · rintro ⟨before, after, hsplit, kept, hkept, rfl⟩
    exact ⟨before, after, kept, hsplit, hkept, rfl⟩
  · rintro ⟨before, after, kept, hsplit, hkept, rfl⟩
    exact ⟨before, after, hsplit, kept, hkept, rfl⟩

/-- Nothing is cancelled when no separator stands in front of the leftmost `/../`. -/
theorem cancelClimb_eq_none_iff :
    cancelClimb path = none ↔ ∀ before, LeftmostClimb path before → '/' ∉ before := by
  rw [Option.eq_none_iff_forall_ne_some]
  constructor
  · intro h before hleft
    obtain ⟨after, hsplit⟩ := leftmostClimb_iff.1 hleft
    rw [← beforeLastSlash_eq_none_iff, Option.eq_none_iff_forall_ne_some]
    intro kept hkept
    exact h _ (cancelClimb_eq_some_iff.2 ⟨before, after, kept, hsplit, hkept, rfl⟩)
  · intro h shorter hcancel
    obtain ⟨before, after, kept, hsplit, hkept, -⟩ := cancelClimb_eq_some_iff.1 hcancel
    have hnot := h before (leftmostClimb_of_splitClimb hsplit)
    rw [beforeLastSlash_eq_none_iff.2 hnot] at hkept
    exact nomatch hkept

end Locator.Path
