import Locator.Proofs.Path.Parts
import Locator.Proofs.Path.Separators

/-!
# Where a path leads

`collapse` looks for `/../` from the left, takes it away together with the part in front of it, and
starts again. Here the same thing is one walk along the parts: a part leads one level down, `..`
leads back up, and `..` on the lowest level is stuck, with everything behind it. The last part names
what the path leads to and takes no part in the walk, even when it is `..`.

* `split_of_cancelClimb`: what one cancellation does to the parts
* `split_collapse`, `split_normalize`: the walk (`resolve`) is what collapsing does
* `Normal`: a path that normalizing leaves as it is, with `normal_normalize` and
  `normalize_eq_self_iff`
-/

namespace Locator.Path

open Text

variable {path shorter front back last first part : List Char}
  {here floor former latter dirs rest : List (List Char)}

/-! ## Walking -/

/-- Where the parts of a path lead to from `here`, the innermost part first. There is no way up from
the lowest level: a step up that would leave it stays, and so does everything behind it. -/
def walk : List (List Char) → List (List Char) → List (List Char)
  | here, [] => here
  | here, part :: rest =>
    if part = up then
      if here.tail = [] then rest.reverse ++ part :: here else walk here.tail rest
    else walk (part :: here) rest

/-- The directories of a path, with every step up taken that can be taken. The first one is where
the path starts, whatever its name. -/
def resolve : List (List Char) → List (List Char)
  | [] => []
  | first :: rest => (walk [first] rest).reverse

theorem walk_push (h : part ≠ up) : walk here (part :: rest) = walk (part :: here) rest := by
  rw [walk, if_neg h]

theorem walk_pop (h : floor ≠ []) : walk (part :: floor) (up :: rest) = walk floor rest := by
  rw [walk, if_pos rfl, List.tail_cons, if_neg h]

theorem walk_stuck : walk [first] (up :: rest) = rest.reverse ++ [up, first] := by
  rw [walk, if_pos rfl, List.tail_cons, if_pos rfl]

theorem walk_ne_nil (h : here ≠ []) (rest : List (List Char)) : walk here rest ≠ [] := by
  induction rest generalizing here with
  | nil => rwa [walk]
  | cons part rest ih =>
    rw [walk]
    split
    · split
      · simp
      · next htail => exact ih htail
    · exact ih (List.cons_ne_nil part here)

theorem resolve_ne_nil (h : dirs ≠ []) : resolve dirs ≠ [] := by
  obtain ⟨first, rest, rfl⟩ := List.exists_cons_of_ne_nil h
  rw [resolve, Ne, List.reverse_eq_nil_iff]
  exact walk_ne_nil (List.cons_ne_nil first []) rest

/-- Down as long as no step up comes. -/
theorem walk_append (h : up ∉ former) :
    walk here (former ++ rest) = walk (former.reverse ++ here) rest := by
  induction former generalizing here with
  | nil => rfl
  | cons part former ih =>
    rw [List.mem_cons, not_or] at h
    rw [List.cons_append, walk_push (Ne.symm h.1), ih h.2]
    simp

theorem walk_of_not_mem (h : up ∉ rest) : walk here rest = rest.reverse ++ here := by
  have happend : walk here (rest ++ []) = walk (rest.reverse ++ here) [] := walk_append h
  rwa [List.append_nil, walk] at happend

theorem resolve_append (hne : former ≠ []) (h : up ∉ former.tail) :
    resolve (former ++ rest) = (walk former.reverse rest).reverse := by
  obtain ⟨first, former, rfl⟩ := List.exists_cons_of_ne_nil hne
  rw [List.tail_cons] at h
  rw [List.cons_append, resolve, walk_append h, List.reverse_cons]

/-- A part that is no step up goes, together with a step up behind it. -/
theorem resolve_cancel (hne : former ≠ []) (h : up ∉ former.tail) (hpart : part ≠ up) :
    resolve (former ++ part :: up :: rest) = resolve (former ++ rest) := by
  rw [resolve_append hne h, resolve_append hne h, walk_push hpart, walk_pop]
  simpa using hne

/-! ## Directories with nothing to cancel -/

/-- No step up behind the first directory, or one right behind it, which is stuck there. -/
def Settled (dirs : List (List Char)) : Prop :=
  up ∉ dirs.tail ∨ dirs.tail.head? = some up

theorem resolve_stuck (h : dirs.tail.head? = some up) : resolve (dirs ++ rest) = dirs ++ rest := by
  obtain ⟨tail, htail⟩ := List.head?_eq_some_iff.1 h
  cases dirs with
  | nil => exact nomatch h
  | cons first dirs =>
    obtain rfl : dirs = up :: tail := htail
    rw [List.cons_append, List.cons_append, resolve, walk_stuck]
    simp

theorem resolve_of_settled (h : Settled dirs) : resolve dirs = dirs := by
  obtain hnot | hstuck := h
  · cases dirs with
    | nil => rfl
    | cons first rest =>
      rw [List.tail_cons] at hnot
      rw [resolve, walk_of_not_mem hnot]
      simp
  · have happend : resolve (dirs ++ []) = dirs ++ [] := resolve_stuck hstuck
    rwa [List.append_nil] at happend

theorem Settled.of_append (h : Settled (dirs ++ rest)) : Settled dirs := by
  cases dirs with
  | nil => exact Or.inl List.not_mem_nil
  | cons first dirs =>
    obtain hnot | hstuck := h
    · exact Or.inl fun hmem => hnot (List.mem_append_left rest hmem)
    · cases dirs with
      | nil => exact Or.inl List.not_mem_nil
      | cons second dirs => exact Or.inr hstuck

/-- As many steps up as there are levels above the lowest, or fewer, are all taken. -/
theorem walk_replicate {k : Nat} (h : k < here.length) :
    walk here (List.replicate k up ++ rest) = walk (here.drop k) rest := by
  induction k generalizing here with
  | zero => rfl
  | succ k ih =>
    cases here with
    | nil => exact nomatch h
    | cons inner floor =>
      have hfloor : k < floor.length := Nat.lt_of_succ_lt_succ h
      rw [List.replicate_succ, List.cons_append, walk_pop (List.length_pos_iff.1 (by omega)),
        ih hfloor, List.drop_succ_cons]

/-- Steps up take away the innermost directories, and what follows takes their place. -/
theorem resolve_replicate {k : Nat} (hformer : up ∉ former.tail) (hk : k < former.length)
    (hrest : up ∉ rest) :
    resolve (former ++ (List.replicate k up ++ rest)) =
      former.take (former.length - k) ++ rest := by
  have hne : former ≠ [] := List.length_pos_iff.1 (by omega)
  rw [resolve_append hne hformer, walk_replicate (by rwa [List.length_reverse]),
    walk_of_not_mem hrest, List.reverse_append, List.reverse_reverse, List.drop_reverse,
    List.reverse_reverse]

/-! ## Collapsing is a walk -/

/-- A cancellation takes away the leftmost step up that is not at the front, and the part in front
of it. -/
theorem split_of_cancelClimb (h : cancelClimb path = some shorter) :
    ∃ former part latter, split '/' path = former ++ part :: up :: latter ∧
      split '/' shorter = former ++ latter ∧
      former ≠ [] ∧ latter ≠ [] ∧ up ∉ former.tail ∧ part ≠ up := by
  obtain ⟨before, after, kept, hsplit, hkept, rfl⟩ := cancelClimb_eq_some_iff.1 h
  obtain ⟨part, hpart, rfl⟩ := beforeLastSlash_eq_some_iff.1 hkept
  have hbefore : split '/' (kept ++ '/' :: part) = split '/' kept ++ [part] := by
    rw [split_append, split_of_not_mem hpart]
  have hnot := up_not_mem_of_leftmostClimb (leftmostClimb_of_splitClimb hsplit)
  rw [hbefore, List.tail_append_of_ne_nil (split_ne_nil '/' kept), List.mem_append, not_or] at hnot
  refine ⟨split '/' kept, part, split '/' after, ?_, split_append '/' kept after,
    split_ne_nil '/' kept, split_ne_nil '/' after, hnot.1, ?_⟩
  · rw [eq_of_splitClimb hsplit, List.append_assoc, climb_append, split_append, hbefore,
      split_append, split_of_not_mem slash_not_mem_up]
    simp
  · rintro rfl
    exact hnot.2 List.mem_cons_self

theorem settled_of_cancelClimb_eq_none (h : cancelClimb path = none)
    (hparts : split '/' path = dirs ++ [last]) : Settled dirs := by
  cases hsplit : splitClimb path with
  | none =>
    left
    intro hmem
    have hinner : up ∈ (split '/' path).tail.dropLast := by
      cases dirs with
      | nil => exact nomatch hmem
      | cons first rest =>
        rw [hparts, List.cons_append, List.tail_cons, List.dropLast_concat]
        exact hmem
    obtain ⟨front, back, heq⟩ := (mem_inner_split_iff slash_not_mem_up).1 hinner
    have hfound : front ++ climb <+: path := ⟨back, by rw [heq, List.append_assoc, climb_append]⟩
    have hsome := splitClimb_isSome hfound
    rw [hsplit] at hsome
    exact nomatch hsome
  | some found =>
    obtain ⟨before, after⟩ := found
    right
    have hnot := cancelClimb_eq_none_iff.1 h before (leftmostClimb_of_splitClimb hsplit)
    -- no separator in front, so the step up comes right behind the first part
    rw [eq_of_splitClimb hsplit, List.append_assoc, climb_append, split_append, split_append,
      split_of_not_mem hnot, split_of_not_mem slash_not_mem_up] at hparts
    obtain ⟨latter, behind, hafter⟩ := exists_split_eq '/' after
    have hdirs : dirs = before :: up :: latter := by
      rw [hafter, ← List.append_assoc, ← List.append_assoc] at hparts
      exact (List.append_inj_left' hparts rfl).symm
    rw [hdirs]
    rfl

/-- The directories of a collapsed path are those that the walk leads to, and its last part is the
last part it had. -/
theorem split_collapse (h : split '/' path = dirs ++ [last]) :
    split '/' (collapse path) = resolve dirs ++ [last] := by
  -- along the cancellations: each of them leaves where the walk leads as it is
  fun_induction collapse path generalizing dirs with
  | case1 path shorter hcancel ih =>
    obtain ⟨former, part, latter, hpath, hshorter, hformer, hlatter, hnot, hpart⟩ :=
      split_of_cancelClimb hcancel
    -- the last part is behind the step up that is cancelled
    obtain ⟨inner, behind, rfl⟩ := exists_eq_concat hlatter
    have heq : dirs ++ [last] = (former ++ part :: up :: inner) ++ [behind] := by
      rw [← h, hpath]
      simp
    obtain ⟨rfl, hlast⟩ := List.append_inj' heq rfl
    obtain rfl : last = behind := (List.cons.inj hlast).1
    rw [← List.append_assoc] at hshorter
    rw [ih hshorter, resolve_cancel hformer hnot hpart]
  | case2 path hcancel =>
    rw [resolve_of_settled (settled_of_cancelClimb_eq_none hcancel h), h]

theorem split_normalize {p : String} (h : split '/' (unifySeparators p.toList) = dirs ++ [last]) :
    split '/' (normalize p).toList = resolve dirs ++ [last] := by
  rw [normalize, String.toList_ofList]
  exact split_collapse h

/-! ## Normal form -/

/-- A path that has only one kind of separator and nothing to cancel. -/
structure Normal (path : List Char) : Prop where
  unified : unifySeparators path = path
  settled : cancelClimb path = none

theorem cancelClimb_collapse (path : List Char) : cancelClimb (collapse path) = none := by
  fun_induction collapse path with
  | case1 path shorter hcancel ih => exact ih
  | case2 path hcancel => exact hcancel

theorem collapse_of_cancelClimb_eq_none (h : cancelClimb path = none) : collapse path = path := by
  rw [collapse]
  split
  · next shorter hcancel =>
    rw [h] at hcancel
    cases hcancel
  · rfl

theorem unifySeparators_of_cancelClimb (h : cancelClimb path = some shorter)
    (hpath : unifySeparators path = path) : unifySeparators shorter = shorter := by
  obtain ⟨before, after, kept, hsplit, hkept, rfl⟩ := cancelClimb_eq_some_iff.1 h
  obtain ⟨part, -, rfl⟩ := beforeLastSlash_eq_some_iff.1 hkept
  rw [eq_of_splitClimb hsplit, List.append_assoc, List.append_assoc, climb_append, List.cons_append,
    unifySeparators_eq_self_append_slash, unifySeparators_eq_self_append_slash,
    unifySeparators_eq_self_append_slash] at hpath
  exact unifySeparators_eq_self_append_slash.2 ⟨hpath.1, hpath.2.2.2⟩

theorem unifySeparators_collapse (h : unifySeparators path = path) :
    unifySeparators (collapse path) = collapse path := by
  fun_induction collapse path with
  | case1 path shorter hcancel ih => exact ih (unifySeparators_of_cancelClimb hcancel h)
  | case2 path hcancel => exact h

theorem normal_normalize (p : String) : Normal (normalize p).toList where
  unified := by
    rw [normalize, String.toList_ofList]
    exact unifySeparators_collapse (unifySeparators_unifySeparators p.toList)
  settled := by
    rw [normalize, String.toList_ofList]
    exact cancelClimb_collapse _

theorem Normal.normalize_eq {p : String} (h : Normal p.toList) : normalize p = p := by
  rw [normalize, h.unified, collapse_of_cancelClimb_eq_none h.settled, String.ofList_toList]

theorem normalize_eq_self_iff {p : String} : normalize p = p ↔ Normal p.toList :=
  ⟨fun h => h ▸ normal_normalize p, Normal.normalize_eq⟩

theorem normalize_normalize (p : String) : normalize (normalize p) = normalize p :=
  (normal_normalize p).normalize_eq

theorem unifySeparators_eq_self_iff_parts :
    unifySeparators path = path ↔ ∀ part ∈ split '/' path, unifySeparators part = part := by
  -- along the parts, with the separators put back between them
  suffices ∀ parts : List (List Char),
      unifySeparators (['/'].intercalate parts) = ['/'].intercalate parts ↔
        ∀ part ∈ parts, unifySeparators part = part by
    have hparts := this (split '/' path)
    rwa [intercalate_split] at hparts
  intro parts
  induction parts with
  | nil => exact ⟨fun _ part hpart => absurd hpart List.not_mem_nil, fun _ => rfl⟩
  | cons first rest ih =>
    cases rest with
    | nil => simp
    | cons second rest =>
      rw [List.intercalate_cons_cons, List.append_assoc, List.singleton_append,
        unifySeparators_eq_self_append_slash, ih, List.forall_mem_cons (a := first)]

theorem unifySeparators_of_split (h : ∀ part ∈ split '/' path, '\\' ∉ part) :
    unifySeparators path = path :=
  unifySeparators_eq_self_iff_parts.2 fun part hpart => unifySeparators_of_not_mem (h part hpart)

/-- A path of parts with one kind of separator only is in normal form when there is nothing to
cancel in its directories. -/
theorem normal_of_parts (h : split '/' path = dirs ++ [last]) (hsettled : Settled dirs)
    (hunified : ∀ part ∈ dirs ++ [last], unifySeparators part = part) : Normal path where
  unified := unifySeparators_eq_self_iff_parts.2 (h ▸ hunified)
  settled := by
    have hparts : split '/' (collapse path) = split '/' path := by
      rw [split_collapse h, resolve_of_settled hsettled, h]
    have hcancel := cancelClimb_collapse path
    rwa [split_injective '/' hparts] at hcancel

theorem normal_of_settled (h : split '/' path = dirs ++ [last]) (hsettled : Settled dirs)
    (hfree : ∀ part ∈ dirs ++ [last], '\\' ∉ part) : Normal path :=
  normal_of_parts h hsettled fun part hpart => unifySeparators_of_not_mem (hfree part hpart)

/-- What stands in front of a separator of a path in normal form is in normal form. -/
theorem Normal.of_append_slash (h : Normal (front ++ '/' :: back)) : Normal front where
  unified := (unifySeparators_eq_self_append_slash.1 h.unified).1
  settled := by
    rw [cancelClimb_eq_none_iff]
    intro before hleft
    obtain ⟨after, hsplit⟩ := leftmostClimb_iff.1 hleft
    -- the leftmost `/../` of the front is the leftmost one of the whole path as well
    have hwhole : LeftmostClimb (front ++ '/' :: back) before := by
      refine ⟨hleft.1.trans (List.prefix_append _ _), fun other hother => ?_⟩
      apply Nat.le_of_not_lt
      intro hlt
      have hlen := hleft.1.length_le
      have hfront : other ++ climb <+: front := by
        refine List.prefix_of_prefix_length_le hother (List.prefix_append _ _) ?_
        rw [List.length_append] at hlen ⊢
        omega
      exact Nat.not_lt_of_le (hleft.2 other hfront) hlt
    exact cancelClimb_eq_none_iff.1 h.settled before hwhole

/-- The directories of a path in normal form. -/
theorem Normal.settled_dirs (h : Normal path) (hparts : split '/' path = dirs ++ [last]) :
    Settled dirs :=
  settled_of_cancelClimb_eq_none h.settled hparts

end Locator.Path
