import Locator.Proofs.Path.Parts
import Mathlib.Data.List.DropRight

/-!
# The segments of a path

The segments of a path are the parts of what stands behind a separator at its front, if it has one.
The empty parts at the end are left out, unless the text has no separator at all. So the segments
are the text again, except for separators at either end of it.

* `segments_eq`: the segments of a path are those of the text behind its lead
* `intercalate_relativeSegments`: joined, they are the text without the separators at its end
* `relativeSegments_eq_nil_iff`: of separators alone nothing is left
* `segments_exact`: both, and what single segments are
-/

namespace Locator.Path

open Text

variable {path : List Char} {dirs : List (List Char)} {last : List Char} {p : String}

/-- The path without the separator at its front, if it has one. -/
def afterLead (path : String) : String :=
  match path.toList with
  | '/' :: relative => String.ofList relative
  | _ => path

/-- The segments of a path behind a separator at the front, if it has one. -/
def relativeSegments (relative : List Char) : List String :=
  if relative.contains '/' then (dropTrailingEmpty (split '/' relative)).map String.ofList
  else [String.ofList relative]

theorem segments_of_toList_eq {relative : List Char} (h : p.toList = '/' :: relative) :
    segments p = relativeSegments relative := by
  rw [segments, h]
  rfl

theorem segments_of_head?_ne (h : p.toList.head? ≠ some '/') :
    segments p = relativeSegments p.toList := by
  rw [segments]
  split
  · next rest heq =>
    rw [heq] at h
    exact absurd rfl h
  · rfl

theorem afterLead_of_toList_eq {relative : List Char} (h : p.toList = '/' :: relative) :
    afterLead p = String.ofList relative := by
  rw [afterLead, h]
  rfl

theorem afterLead_of_head?_ne (h : p.toList.head? ≠ some '/') : afterLead p = p := by
  rw [afterLead]
  split
  · next rest heq =>
    rw [heq] at h
    exact absurd rfl h
  · rfl

theorem segments_eq (p : String) : segments p = relativeSegments (afterLead p).toList := by
  by_cases hlead : p.toList.head? = some '/'
  · obtain ⟨relative, hp⟩ := List.head?_eq_some_iff.1 hlead
    rw [segments_of_toList_eq hp, afterLead_of_toList_eq hp, String.toList_ofList]
  · rw [segments_of_head?_ne hlead, afterLead_of_head?_ne hlead]

/-! ## Empty parts at the end -/

theorem dropTrailingEmpty_append (h : last ≠ []) :
    dropTrailingEmpty (dirs ++ [last]) = dirs ++ [last] := by
  have hlast : last.isEmpty = false := by simpa using h
  simp [dropTrailingEmpty, hlast]

theorem dropTrailingEmpty_append_nil :
    dropTrailingEmpty (dirs ++ [[]]) = dropTrailingEmpty dirs := by
  simp [dropTrailingEmpty]

theorem dropTrailingEmpty_prefix_self (parts : List (List Char)) :
    dropTrailingEmpty parts <+: parts :=
  List.rdropWhile_prefix List.isEmpty parts

/-- What is left ends with a name, if anything is left. -/
theorem ne_nil_of_getLast?_dropTrailingEmpty {parts : List (List Char)}
    (h : last ∈ (dropTrailingEmpty parts).getLast?) : last ≠ [] := by
  obtain ⟨hne, rfl⟩ := List.mem_getLast?_eq_getLast h
  have hlast := List.rdropWhile_last_not List.isEmpty parts hne
  rwa [List.isEmpty_iff] at hlast

/-- The last part of a text is empty only behind a separator. -/
theorem getLast?_of_split_eq (hsplit : split '/' path = dirs ++ [[]]) (hne : path ≠ []) :
    path.getLast? = some '/' := by
  by_cases hdirs : dirs = []
  · rw [hdirs, List.nil_append] at hsplit
    exact absurd (eq_of_split_eq_singleton hsplit).1 hne
  · obtain ⟨front, back, rfl, -, hback⟩ :=
      exists_of_split_eq_append hdirs (List.cons_ne_nil _ _) hsplit
    rw [(eq_of_split_eq_singleton hback).1, List.getLast?_concat]

/-- The empty parts at the end of a text are the separators at its end. -/
theorem intercalate_dropTrailingEmpty (path : List Char) :
    ['/'].intercalate (dropTrailingEmpty (split '/' path)) = path.rdropWhile (· == '/') := by
  -- a separator at the end goes on both sides, and any other character stays on both
  induction path using List.reverseRecOn with
  | nil => rfl
  | append_singleton front c ih =>
    by_cases hc : c = '/'
    · subst hc
      rw [split_append, show split '/' [] = [[]] from rfl, dropTrailingEmpty_append_nil, ih,
        List.rdropWhile_concat_pos _ _ _ (by rfl)]
    · obtain ⟨dirs, last, hsplit⟩ := exists_split_eq '/' (front ++ [c])
      have hlast : last ≠ [] := by
        rintro rfl
        have hend := getLast?_of_split_eq hsplit (by simp)
        rw [List.getLast?_concat, Option.some.injEq] at hend
        exact hc hend
      rw [hsplit, dropTrailingEmpty_append hlast, ← hsplit, intercalate_split,
        List.rdropWhile_concat_neg _ _ _ (by simpa using hc)]

theorem dropTrailingEmpty_split_eq_nil_iff :
    dropTrailingEmpty (split '/' path) = [] ↔ ∀ c ∈ path, c = '/' := by
  have hjoined := intercalate_dropTrailingEmpty path
  have hall : path.rdropWhile (· == '/') = [] ↔ ∀ c ∈ path, c = '/' := by
    simp [List.rdropWhile_eq_nil_iff]
  rw [← hall, ← hjoined]
  constructor
  · intro hnil
    rw [hnil]
    rfl
  · intro hnil
    -- if parts were left, they would be those of the empty text, and so end with an empty one
    apply Classical.byContradiction
    intro hne
    have hkept : split '/' [] = dropTrailingEmpty (split '/' path) := by
      rw [← hnil]
      apply split_intercalate _ hne
      intro part hpart
      exact not_mem_of_mem_split ((dropTrailingEmpty_prefix_self _).subset hpart)
    have hlast : [] ∈ (dropTrailingEmpty (split '/' path)).getLast? := by
      rw [← hkept]
      rfl
    exact ne_nil_of_getLast?_dropTrailingEmpty hlast rfl

/-! ## Segments -/

variable {relative : List Char} {segment : String}

theorem map_toList_relativeSegments (relative : List Char) :
    (relativeSegments relative).map String.toList =
      if '/' ∈ relative then dropTrailingEmpty (split '/' relative) else split '/' relative := by
  have hid : String.toList ∘ String.ofList = id := funext fun chars => String.toList_ofList
  by_cases hslash : '/' ∈ relative
  · rw [relativeSegments, if_pos (List.contains_iff_mem.2 hslash), if_pos hslash, List.map_map, hid,
      List.map_id]
  · rw [relativeSegments, if_neg (mt List.contains_iff_mem.1 hslash), if_neg hslash,
      split_of_not_mem hslash, List.map_singleton, String.toList_ofList]

/-- The segments of a text are its parts, without some that are left out at the end. -/
theorem relativeSegments_prefix_split (relative : List Char) :
    (relativeSegments relative).map String.toList <+: split '/' relative := by
  rw [map_toList_relativeSegments]
  split
  · exact dropTrailingEmpty_prefix_self _
  · exact List.prefix_rfl

/-- Nothing is left out when there is a name at the end. -/
theorem relativeSegments_eq (h : split '/' relative = dirs ++ [last])
    (hlast : last ≠ []) : relativeSegments relative = (dirs ++ [last]).map String.ofList := by
  rw [relativeSegments, h, dropTrailingEmpty_append hlast]
  by_cases hslash : '/' ∈ relative
  · rw [if_pos (List.contains_iff_mem.2 hslash)]
  · rw [split_of_not_mem hslash] at h
    rw [if_neg fun hcontains => hslash (List.contains_iff_mem.1 hcontains), ← h]
    rfl

theorem slash_not_mem_of_mem_relativeSegments (h : segment ∈ relativeSegments relative) :
    '/' ∉ segment.toList := by
  have hmem := List.mem_map_of_mem (f := String.toList) h
  exact not_mem_of_mem_split ((relativeSegments_prefix_split relative).subset hmem)

theorem slash_not_mem_of_mem_segments (h : segment ∈ segments p) : '/' ∉ segment.toList := by
  rw [segments_eq] at h
  exact slash_not_mem_of_mem_relativeSegments h

theorem intercalate_relativeSegments (relative : List Char) :
    "/".intercalate (relativeSegments relative) =
      String.ofList (relative.rdropWhile (· == '/')) := by
  apply String.toList_injective
  have hslash : "/".toList = ['/'] := rfl
  rw [String.toList_intercalate, hslash, map_toList_relativeSegments, String.toList_ofList]
  split
  · exact intercalate_dropTrailingEmpty relative
  · next hslash =>
    have hself : relative.rdropWhile (· == '/') = relative := by
      rw [List.rdropWhile_eq_self_iff]
      intro hne hlast
      apply hslash
      rw [← beq_iff_eq.1 hlast]
      exact List.getLast_mem hne
    rw [intercalate_split, hself]

theorem relativeSegments_eq_nil_iff :
    relativeSegments relative = [] ↔ relative ≠ [] ∧ ∀ c ∈ relative, c = '/' := by
  rw [← List.map_eq_nil_iff (f := String.toList), map_toList_relativeSegments]
  split
  · next hslash =>
    rw [dropTrailingEmpty_split_eq_nil_iff, and_iff_right (List.ne_nil_of_mem hslash)]
  · next hslash =>
    rw [eq_false (split_ne_nil '/' relative), false_iff]
    rintro ⟨hne, hall⟩
    obtain ⟨c, hc⟩ := List.exists_mem_of_ne_nil relative hne
    exact hslash (hall c hc ▸ hc)

/-- Where there are separators, the last segment has a name. -/
theorem ne_empty_of_getLast?_relativeSegments (hslash : '/' ∈ relative)
    (h : segment ∈ (relativeSegments relative).getLast?) : segment ≠ "" := by
  have hlast : segment.toList ∈ ((relativeSegments relative).map String.toList).getLast? := by
    rw [List.getLast?_map]
    exact Option.mem_map_of_mem String.toList h
  rw [map_toList_relativeSegments, if_pos hslash] at hlast
  intro hempty
  rw [hempty] at hlast
  exact ne_nil_of_getLast?_dropTrailingEmpty hlast rfl

/-- The segments of a path and the text behind its lead correspond exactly. Joined, the segments are
that text without the separators at its end; none of them has a separator in it; there is none
exactly when the text is made of separators alone; where the text has separators, the last one of
them has a name; and the lead counts for nothing unless there are two separators at the front. -/
theorem segments_exact (path : String) :
    "/".intercalate (segments path) =
      String.ofList ((afterLead path).toList.rdropWhile (· == '/')) ∧
    (∀ segment ∈ segments path, '/' ∉ segment.toList) ∧
    (segments path = [] ↔ afterLead path ≠ "" ∧ ∀ c ∈ (afterLead path).toList, c = '/') ∧
    ('/' ∈ (afterLead path).toList → ∀ last ∈ (segments path).getLast?, last ≠ "") ∧
    ((afterLead path).toList.head? ≠ some '/' → segments path = segments (afterLead path)) := by
  have hsegments := segments_eq path
  have hempty : afterLead path ≠ "" ↔ (afterLead path).toList ≠ [] :=
    not_congr String.toList_eq_nil_iff.symm
  refine ⟨?_, fun segment hsegment => slash_not_mem_of_mem_segments hsegment, ?_, ?_, ?_⟩
  · rw [hsegments, intercalate_relativeSegments]
  · rw [hsegments, relativeSegments_eq_nil_iff, hempty]
  · intro hslash last hlast
    rw [hsegments] at hlast
    exact ne_empty_of_getLast?_relativeSegments hslash hlast
  · intro hlead
    rw [hsegments, segments_of_head?_ne hlead]

/-- One separator at each end counts for nothing, and the gap in the middle is a segment. -/
theorem segments_exact_with_gap :
    '/' ∈ (afterLead "/a//b/").toList ∧ "b" ∈ (segments "/a//b/").getLast? ∧ "b" ≠ "" ∧
    (afterLead "/a//b/").toList.head? ≠ some '/' ∧
    segments "/a//b/" = segments (afterLead "/a//b/") ∧
    "/".intercalate (segments "/a//b/") = "a//b" := by
  have hslash : '/' ∈ (afterLead "/a//b/").toList := by decide
  have hlast : "b" ∈ (segments "/a//b/").getLast? := by decide
  have hlead : (afterLead "/a//b/").toList.head? ≠ some '/' := by decide
  obtain ⟨hjoined, -, -, hname, hsame⟩ := segments_exact "/a//b/"
  exact ⟨hslash, hlast, hname hslash "b" hlast, hlead, hsame hlead, hjoined⟩

end Locator.Path
