import Locator.Proofs.Path.Containment
import Locator.Proofs.Path.Plain

/-!
# References inside references

A display that is included by another one refers to further displays. Such a reference can be read
from the place where the included display was found, or it can be put together with the reference to
that display first. Both lead to the same place as long as every step up has a part to take away
that is not in front of the directories. Without that the grouping shows: a step up that is stuck
where its reference begins may be taken behind a directory, but once it is stuck there, nothing
behind it is taken any more.

* `walk_append_of_dip_lt`, `walk_eq_of_straightens`: with room enough, where a walk leads depends
  neither on the grouping of the parts nor on pairs that are left out before
* `split_combine_of_room`: reading a path from a directory with room enough
* `combine_combine`: one reference after the other leads to where both together lead
-/

namespace Locator.Path

open Text

variable {part last name : List Char} {here former rest dirs shorter : List (List Char)}
  {parent child grandchild file : String} {host gap segs outer inner : List String}

/-! ## Walks with room -/

theorem dip_append_of_not_mem (h : up ∉ former) (rest : List (List Char)) :
    dip (former ++ rest) = dip rest - former.length := by
  induction former with
  | nil => rfl
  | cons part former ih =>
    rw [List.mem_cons, not_or] at h
    rw [List.cons_append, dip_of_ne (Ne.symm h.1), ih h.2, List.length_cons]
    omega

theorem dip_le_dip_append (former rest : List (List Char)) : dip former ≤ dip (former ++ rest) := by
  induction former with
  | nil => exact Nat.zero_le _
  | cons part former ih =>
    by_cases hpart : part = up
    · rw [List.cons_append, hpart, dip_up, dip_up]
      omega
    · rw [List.cons_append, dip_of_ne hpart, dip_of_ne hpart]
      omega

/-- A count that never becomes negative behind parts that lead down: what follows them climbs no
further than they lead. -/
theorem dip_le_of_levels (hformer : up ∉ former)
    (h : ∀ level ∈ levels 0 (former ++ rest), 0 ≤ level) : dip rest ≤ former.length := by
  have hdip : dip (former ++ rest) = 0 := (below_eq_zero_iff _).2 h
  rw [dip_append_of_not_mem hformer] at hdip
  omega

/-- Induction along a walk that is never stuck, because there are more levels than it dips: no
parts are left, or a step up is taken, or a part leads down. -/
theorem walk_room_induction {motive : List (List Char) → List (List Char) → Prop}
    (nil : ∀ here, motive here [])
    (pop : ∀ inner floor rest, floor ≠ [] → motive floor rest →
      motive (inner :: floor) (up :: rest))
    (push : ∀ part here rest, part ≠ up → motive (part :: here) rest → motive here (part :: rest))
    (h : dip rest < here.length) : motive here rest := by
  -- room enough for the deepest climb means that no step up of the walk sticks
  induction rest generalizing here with
  | nil => exact nil here
  | cons part rest ih =>
    by_cases hpart : part = up
    · subst hpart
      rw [dip_up] at h
      cases here with
      | nil => cases h
      | cons inner floor =>
        have hroom : dip rest < floor.length := Nat.lt_of_succ_lt_succ h
        exact pop inner floor rest (List.length_pos_iff.1 (by omega)) (ih hroom)
    · rw [dip_of_ne hpart] at h
      have hroom : dip rest < (part :: here).length := by
        rw [List.length_cons]
        omega
      exact push part here rest hpart (ih hroom)

/-- A walk that is not stuck goes on from where it has come to. -/
theorem walk_append_of_dip_lt (rest : List (List Char)) (h : dip former < here.length) :
    walk here (former ++ rest) = walk (walk here former) rest := by
  refine walk_room_induction
    (motive := fun here former => walk here (former ++ rest) = walk (walk here former) rest)
    ?nil ?pop ?push h
  case nil =>
    intro here
    rw [walk, List.nil_append]
  case pop =>
    intro inner floor former hfloor ih
    rw [List.cons_append, walk_pop hfloor, walk_pop hfloor, ih]
  case push =>
    intro part here former hpart ih
    rw [List.cons_append, walk_push hpart, walk_push hpart, ih]

/-- Where a walk has come to, there is as much room left as the rest of it needs. -/
theorem dip_lt_length_walk (h : dip (former ++ rest) < here.length) :
    dip rest < (walk here former).length := by
  have hformer := Nat.lt_of_le_of_lt (dip_le_dip_append former rest) h
  refine walk_room_induction
    (motive := fun here former => dip (former ++ rest) < here.length →
      dip rest < (walk here former).length)
    ?nil ?pop ?push hformer h
  case nil =>
    intro here hroom
    rwa [walk]
  case pop =>
    intro inner floor former hfloor ih hroom
    rw [List.cons_append, dip_up, List.length_cons] at hroom
    rw [walk_pop hfloor]
    exact ih (Nat.lt_of_succ_lt_succ hroom)
  case push =>
    intro part here former hpart ih hroom
    rw [List.cons_append, dip_of_ne hpart] at hroom
    rw [walk_push hpart]
    apply ih
    rw [List.length_cons]
    omega

/-- A walk that is not stuck leaves no step up behind the first part. -/
theorem up_not_mem_walk (hroom : dip rest < here.length) (hhere : up ∉ here.dropLast) :
    up ∉ (walk here rest).dropLast := by
  refine walk_room_induction
    (motive := fun here rest => up ∉ here.dropLast → up ∉ (walk here rest).dropLast)
    ?nil ?pop ?push hroom hhere
  case nil =>
    intro here hhere
    rwa [walk]
  case pop =>
    intro inner floor rest hfloor ih hhere
    rw [List.dropLast_cons_of_ne_nil hfloor, List.mem_cons, not_or] at hhere
    rw [walk_pop hfloor]
    exact ih hhere.2
  case push =>
    intro part here rest hpart ih hhere
    rw [walk_push hpart]
    exact ih (up_not_mem_dropLast_cons hpart hhere)

/-- With room enough, parts may be straightened before they are walked along. -/
theorem walk_eq_of_straightens (h : Relation.ReflTransGen Straightens dirs shorter)
    (hroom : dip dirs < here.length) : walk here shorter = walk here dirs := by
  induction h with
  | refl => rfl
  | tail hsteps hstep ih =>
    have hdip := dip_of_straightens hsteps
    obtain ⟨former, part, latter, rfl, rfl, hpart⟩ := hstep
    have hwhole : dip (former ++ part :: up :: latter) < here.length := hdip ▸ hroom
    have hformer := Nat.lt_of_le_of_lt (dip_le_dip_append former _) hwhole
    have hfloor := walk_ne_nil (List.length_pos_iff.1 (Nat.zero_lt_of_lt hroom)) former
    rw [← ih, walk_append_of_dip_lt latter hformer,
      walk_append_of_dip_lt (part :: up :: latter) hformer, walk_push hpart, walk_pop hfloor]

/-! ## Reading from a directory with room -/

/-- The parts of a path that is read from a directory in which no step up is left, when the
directory has more parts than the path dips. They are read off the path as it is written. -/
theorem split_combine_of_room (hparent : parent ≠ "")
    (hfree : up ∉ (split '/' (directory parent).toList).tail)
    (hchild : isAbsolute (normalize child) = false)
    (hparts : split '/' (unifySeparators child.toList) = dirs ++ [last])
    (hroom : dip dirs < (split '/' (directory parent).toList).length) :
    split '/' (combine (some parent) child).toList =
      (walk (split '/' (directory parent).toList).reverse dirs).reverse ++ [last] := by
  rw [split_combine hparent hchild (split_normalize hparts),
    resolve_append (split_ne_nil '/' _) hfree,
    walk_eq_of_straightens (straightens_resolve dirs) (by rwa [List.length_reverse])]

theorem ne_nil_of_split {path : List Char} (hdirs : dirs ≠ [])
    (h : split '/' path = dirs ++ [last]) : path ≠ [] := by
  rintro rfl
  have hone : dirs ++ [last] = [] ++ [[]] := h.symm
  exact hdirs (List.append_inj_left' hone rfl)

/-! ## One reference after the other -/

/-- Putting references together straightens their directories. -/
theorem straightens_references (dirs rest : List (List Char)) :
    Relation.ReflTransGen Straightens (dirs ++ rest) (resolve (resolve dirs ++ resolve rest)) := by
  have hdirs := straightens_append (straightens_resolve dirs) [] rest
  have hrest := straightens_append (straightens_resolve rest) (resolve dirs) []
  rw [List.nil_append, List.nil_append] at hdirs
  rw [List.append_nil, List.append_nil] at hrest
  exact (hdirs.trans hrest).trans (straightens_resolve _)

section References

variable (hdirs : dirs ≠ []) (hparts : split '/' (unifySeparators child.toList) = dirs ++ [last])
  (hgrandchild : isAbsolute (normalize grandchild) = false)
  (hinner : split '/' (unifySeparators grandchild.toList) = rest ++ [name])

include hdirs hparts hgrandchild hinner

/-- The parts of two references that are put together. -/
theorem split_combine_references :
    split '/' (combine (some child) grandchild).toList =
      resolve (resolve dirs ++ resolve rest) ++ [name] := by
  have hne : child ≠ "" := by
    rintro rfl
    exact ne_nil_of_split hdirs hparts rfl
  rw [split_combine hne hgrandchild (split_normalize hinner),
    split_directory (resolve_ne_nil hdirs) (split_normalize hparts)]

variable (hparent : parent ≠ "") (hfree : up ∉ (split '/' (directory parent).toList).tail)
  (hroom : dip (dirs ++ rest) < (split '/' (directory parent).toList).length)

include hparent hfree hroom

omit hdirs in
/-- Reading a reference and then another one from there is walking along both. -/
theorem split_combine_combine (hchild : isAbsolute (normalize child) = false) :
    split '/' (combine (some (combine (some parent) child)) grandchild).toList =
      (walk (split '/' (directory parent).toList).reverse (dirs ++ rest)).reverse ++ [name] := by
  have hfirst := Nat.lt_of_le_of_lt (dip_le_dip_append dirs rest) hroom
  have hcombined := split_combine_of_room hparent hfree hchild hparts hfirst
  -- what the parent was takes part in all that follows by its parts alone
  generalize hhere : (split '/' (directory parent).toList).reverse = here at hcombined ⊢
  rw [← List.length_reverse, hhere] at hroom hfirst
  have hwalk : (walk here dirs).reverse ≠ [] := by
    rw [Ne, List.reverse_eq_nil_iff]
    exact walk_ne_nil (List.length_pos_iff.1 (Nat.zero_lt_of_lt hroom)) dirs
  have hdirectory : split '/' (directory (combine (some parent) child)).toList =
      (walk here dirs).reverse := by
    apply split_directory hwalk
    rw [normalize_combine hparent, hcombined]
  have hnext : combine (some parent) child ≠ "" := fun hempty =>
    ne_nil_of_split hwalk hcombined (by rw [hempty]; rfl)
  have hstill : up ∉ (split '/' (directory (combine (some parent) child)).toList).tail := by
    rw [hdirectory, List.tail_reverse, List.mem_reverse]
    apply up_not_mem_walk hfirst
    rwa [← hhere, List.dropLast_reverse, List.mem_reverse]
  rw [split_combine_of_room hnext hstill hgrandchild hinner, hdirectory, List.reverse_reverse,
    walk_append_of_dip_lt rest hfirst]
  rw [hdirectory, List.length_reverse]
  exact dip_lt_length_walk hroom

/-- Reading two references together is walking along both as well. -/
theorem split_combine_together (hboth : isAbsolute (combine (some child) grandchild) = false) :
    split '/' (combine (some parent) (combine (some child) grandchild)).toList =
      (walk (split '/' (directory parent).toList).reverse (dirs ++ rest)).reverse ++ [name] := by
  have hne : child ≠ "" := by
    rintro rfl
    exact ne_nil_of_split hdirs hparts rfl
  have hnormal := normalize_combine hne grandchild
  have hstraight := straightens_references dirs rest
  have hunified : unifySeparators (combine (some child) grandchild).toList =
      (combine (some child) grandchild).toList := (normalize_eq_self_iff.1 hnormal).unified
  have htogether := split_combine_references hdirs hparts hgrandchild hinner
  rw [← hunified] at htogether
  rw [← dip_of_straightens hstraight] at hroom
  rw [split_combine_of_room hparent hfree (by rwa [hnormal]) htogether hroom,
    walk_eq_of_straightens hstraight]
  rwa [← dip_of_straightens hstraight, List.length_reverse]

end References

/-- A path is relative when it comes out of parts of which none is empty. -/
theorem isAbsolute_of_straightens {p : String} (h : Relation.ReflTransGen Straightens dirs shorter)
    (hp : split '/' p.toList = shorter ++ [last]) (hfull : [] ∉ dirs ++ [last]) :
    isAbsolute p = false := by
  apply isAbsolute_eq_false_of_parts
  rw [hp]
  exact fun hmem => hfull (((sublist_of_straightens h).append_right [last]).subset hmem)

/-- With room in a directory for two references, one after the other leads to where both together
lead. -/
theorem combine_combine_of_room (hparent : parent ≠ "")
    (hfree : up ∉ (split '/' (directory parent).toList).tail) (hdirs : dirs ≠ [])
    (hparts : split '/' (unifySeparators child.toList) = dirs ++ [last])
    (hfull : [] ∉ dirs ++ [last])
    (hparts' : split '/' (unifySeparators grandchild.toList) = rest ++ [name])
    (hfull' : [] ∉ rest ++ [name])
    (hroom : dip (dirs ++ rest) < (split '/' (directory parent).toList).length) :
    combine (some (combine (some parent) child)) grandchild =
      combine (some parent) (combine (some child) grandchild) := by
  -- none of the three references is absolute, as none of their parts is empty
  have hchild := isAbsolute_of_straightens (straightens_resolve dirs) (split_normalize hparts) hfull
  have hgrandchild :=
    isAbsolute_of_straightens (straightens_resolve rest) (split_normalize hparts') hfull'
  have hboth : isAbsolute (combine (some child) grandchild) = false := by
    apply isAbsolute_of_straightens (straightens_references dirs rest)
      (split_combine_references hdirs hparts hgrandchild hparts')
    simp only [List.mem_append, not_or] at hfull hfull' ⊢
    exact ⟨⟨hfull.1, hfull'.1⟩, hfull'.2⟩
  -- both sides have the same parts: what `resolve` leaves of the three in a row
  apply String.toList_injective
  apply split_injective '/'
  rw [split_combine_combine hparts hgrandchild hparts' hparent hfree hroom hchild,
    split_combine_together hdirs hparts hgrandchild hparts' hparent hfree hroom hboth]

/-! ## Locations and references -/

/-- A reference is made of plain segments and steps up. -/
def Reference (segs : List String) : Prop :=
  ∀ s ∈ segs, Plain s ∨ s = ".."

instance (segs : List String) : Decidable (Reference segs) :=
  inferInstanceAs (Decidable (∀ s ∈ segs, Plain s ∨ s = ".."))

/-- The parts of a reference: all of them as they are written, and none of them empty. -/
theorem split_reference (hne : segs ≠ []) (h : Reference segs) :
    split '/' (unifySeparators ("/".intercalate segs).toList) = segs.map String.toList ∧
      [] ∉ segs.map String.toList := by
  have hfree : ∀ s ∈ segs, '/' ∉ s.toList ∧ '\\' ∉ s.toList ∧ s.toList ≠ [] := by
    intro s hs
    obtain hplain | rfl := h s hs
    · exact ⟨hplain.slash, hplain.backslash, hplain.toList_ne_nil⟩
    · decide
  have hsplit := split_intercalate_segments hne fun s hs => (hfree s hs).1
  constructor
  · rw [unifySeparators_of_split, hsplit]
    rw [hsplit]
    intro part hpart
    obtain ⟨s, hs, rfl⟩ := List.mem_map.1 hpart
    exact (hfree s hs).2.1
  · intro hmem
    obtain ⟨s, hs, hnil⟩ := List.mem_map.1 hmem
    exact (hfree s hs).2.2 hnil

/-- Below a location of plain segments, a reference that is read from where another one leads is the
same as the two references put together, and then read from the location. No walk may lead above the
directories: the running count along them and along what the references have in front of their last
segments never becomes negative. The host of a URL, and any further separators behind it or behind
the root, are no directories. -/
theorem combine_combine (lead : Lead) (hhost : ∀ s ∈ host, Plain s) (hgap : ∀ s ∈ gap, s = "")
    (hsegs : ∀ s ∈ segs, Plain s) (hfile : Plain file) (hlen : 2 ≤ outer.length)
    (houter : Reference outer) (hne : inner ≠ []) (hinner : Reference inner)
    (hlevels : ∀ level ∈
      levels 0 ((segs ++ outer.dropLast ++ inner.dropLast).map String.toList), 0 ≤ level) :
    combine (some (combine (some (lead.path (host ++ gap ++ segs ++ [file])))
        ("/".intercalate outer))) ("/".intercalate inner) =
      combine (some (lead.path (host ++ gap ++ segs ++ [file])))
        (combine (some ("/".intercalate outer)) ("/".intercalate inner)) := by
  have hlocation : ∀ s ∈ host ++ gap ++ segs ++ [file], Plain s ∨ s = "" := by
    simp only [List.mem_append, List.mem_singleton]
    rintro s (((hs | hs) | hs) | rfl)
    · exact Or.inl (hhost s hs)
    · exact Or.inr (hgap s hs)
    · exact Or.inl (hsegs s hs)
    · exact Or.inl hfile
  -- the location gives its directory, the references their directories and names
  obtain ⟨hdirectory, hup⟩ := lead.split_directory_path hlocation
  have houterne : outer ≠ [] := List.length_pos_iff.1 (by omega)
  obtain ⟨outers, last, rfl⟩ := exists_eq_concat houterne
  obtain ⟨inners, name, rfl⟩ := exists_eq_concat hne
  obtain ⟨hparts, hfull⟩ := split_reference houterne houter
  obtain ⟨hparts', hfull'⟩ := split_reference hne hinner
  rw [List.map_append, List.map_singleton] at hparts hfull hparts' hfull'
  have hdirs : outers.map String.toList ≠ [] := by
    rw [Ne, List.map_eq_nil_iff, ← List.length_eq_zero_iff]
    rw [List.length_append, List.length_singleton] at hlen
    omega
  refine combine_combine_of_room (lead.path_ne_empty _) ?_ hdirs hparts hfull hparts' hfull' ?_
  · rw [hdirectory]
    exact fun hmem => hup (List.mem_of_mem_tail hmem)
  · -- the directories alone have room enough, and the lead stands in front of them
    rw [List.dropLast_concat, List.dropLast_concat, List.append_assoc, List.map_append,
      List.map_append] at hlevels
    have hdip := dip_le_of_levels (up_not_mem_of_plain hsegs) hlevels
    have hlead := List.length_pos_iff.2 lead.parts_ne_nil
    rw [hdirectory]
    simp only [List.length_append, List.length_map] at hdip ⊢
    omega

/-- The first reference climbs out of two directories and into another one, and the second one out
of that and of one more. Put together on their own, they have a step up that is stuck. -/
theorem combine_combine_climbing :
    ((∀ s ∈ ["host"], Plain s) ∧ (∀ s ∈ ["a", "b", "c"], Plain s) ∧ Plain "main.bob" ∧
      Reference ["..", "..", "d", "sub.bob"] ∧ Reference ["..", "..", "e", "x.bob"] ∧
      ∀ level ∈ levels 0 ((["a", "b", "c"] ++ ["..", "..", "d"] ++ ["..", "..", "e"]).map
        String.toList), 0 ≤ level) ∧
    combine (some "http://host/a/b/c/main.bob") "../../d/sub.bob" = "http://host/a/d/sub.bob" ∧
    combine (some "../../d/sub.bob") "../../e/x.bob" = "../../d/../../e/x.bob" ∧
    combine (some "http://host/a/d/sub.bob") "../../e/x.bob" =
      combine (some "http://host/a/b/c/main.bob") "../../d/../../e/x.bob" := by
  have hhost : ∀ s ∈ ["host"], Plain s := by decide
  have hgap : ∀ s ∈ ([] : List String), s = "" := by decide
  have hsegs : ∀ s ∈ ["a", "b", "c"], Plain s := by decide
  have hfile : Plain "main.bob" := by decide
  have houter : Reference ["..", "..", "d", "sub.bob"] := by decide
  have hinner : Reference ["..", "..", "e", "x.bob"] := by decide
  have hlevels : ∀ level ∈ levels 0 ((["a", "b", "c"] ++ ["..", "..", "d"] ++
      ["..", "..", "e"]).map String.toList), 0 ≤ level := by decide
  have hfirst : combine (some "http://host/a/b/c/main.bob") "../../d/sub.bob" =
      "http://host/a/d/sub.bob" := by decide +kernel
  have hboth : combine (some "../../d/sub.bob") "../../e/x.bob" = "../../d/../../e/x.bob" := by
    decide +kernel
  have hsame := combine_combine .http hhost hgap hsegs hfile (by decide) houter (by decide) hinner
    hlevels
  have hparent : Lead.http.path (["host"] ++ [] ++ ["a", "b", "c"] ++ ["main.bob"]) =
      "http://host/a/b/c/main.bob" := by decide +kernel
  have houtertext : "/".intercalate ["..", "..", "d", "sub.bob"] = "../../d/sub.bob" := by
    decide +kernel
  have hinnertext : "/".intercalate ["..", "..", "e", "x.bob"] = "../../e/x.bob" := by
    decide +kernel
  rw [hparent, houtertext, hinnertext, hfirst, hboth] at hsame
  exact ⟨⟨hhost, hsegs, hfile, houter, hinner, hlevels⟩, hfirst, hboth, hsame⟩

end Locator.Path
