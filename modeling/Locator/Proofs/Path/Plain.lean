import Locator.Proofs.Path.Kinds
import Locator.Proofs.Path.NormalForm
import Locator.Proofs.Path.Segments

/-!
# Paths made of plain segments

Most paths are written with nothing special in them: behind a `/`, or behind a scheme and `//`, come
segments that are not empty, are no step up and have no backslash. For a URL the first of them is
the host. Relative paths of this kind are a number of steps up and then such segments.

* `split_path`, `split_way`: their parts
* `normal_path`, `normal_way`: they are in normal form
* `directory_path`, `segments_path`: their directory and their segments
-/

namespace Locator.Path

open Text

variable {dirs : List (List Char)} {last : List Char} {p segment file : String}
  {segs rest : List String}

/-! ## Segments -/

/-- A segment that stands for itself. -/
structure Plain (segment : String) : Prop where
  ne_empty : segment ≠ ""
  slash : '/' ∉ segment.toList
  backslash : '\\' ∉ segment.toList
  ne_up : segment ≠ ".."

instance (segment : String) : Decidable (Plain segment) :=
  decidable_of_iff
    (segment ≠ "" ∧ '/' ∉ segment.toList ∧ '\\' ∉ segment.toList ∧ segment ≠ "..")
    ⟨fun h => ⟨h.1, h.2.1, h.2.2.1, h.2.2.2⟩,
      fun h => ⟨h.ne_empty, h.slash, h.backslash, h.ne_up⟩⟩

theorem toList_up : "..".toList = up := by decide

theorem Plain.toList_ne_nil (h : Plain segment) : segment.toList ≠ [] :=
  fun hnil => h.ne_empty (String.toList_eq_nil_iff.1 hnil)

theorem Plain.toList_ne_up (h : Plain segment) : segment.toList ≠ up :=
  fun hup => h.ne_up (String.toList_injective (hup.trans toList_up.symm))

theorem split_intercalate_segments (hne : segs ≠ []) (h : ∀ s ∈ segs, '/' ∉ s.toList) :
    split '/' ("/".intercalate segs).toList = segs.map String.toList := by
  rw [String.toList_intercalate]
  apply split_intercalate
  · intro part hpart
    obtain ⟨s, hs, rfl⟩ := List.mem_map.1 hpart
    exact h s hs
  · simpa using hne

theorem forall_mem_concat_plain (h : ∀ s ∈ segs, Plain s) (hfile : Plain file) :
    ∀ s ∈ segs ++ [file], Plain s := by
  intro s hs
  obtain hs | hs := List.mem_append.1 hs
  · exact h s hs
  · rwa [List.mem_singleton.1 hs]

theorem up_not_mem_of_plain (h : ∀ s ∈ segs, Plain s) : up ∉ segs.map String.toList := by
  intro hmem
  obtain ⟨s, hs, hup⟩ := List.mem_map.1 hmem
  exact (h s hs).toList_ne_up hup

/-! ## Absolute paths -/

/-- What an absolute path starts with. -/
inductive Lead where
  | root
  | http
  | https
  deriving DecidableEq, Repr

namespace Lead

variable (lead : Lead)

def text : Lead → String
  | root => "/"
  | http => "http://"
  | https => "https://"

/-- The parts that a lead puts in front of the segments behind it. -/
def parts : Lead → List (List Char)
  | root => [[]]
  | http => ["http:".toList, []]
  | https => ["https:".toList, []]

/-- The segments that a lead puts in front of the segments behind it; the separator at the front is
not one. -/
def segments : Lead → List String
  | root => []
  | http => ["http:", ""]
  | https => ["https:", ""]

/-- The absolute path with these segments. Those of a URL are its host and then its path. -/
def path (segs : List String) : String :=
  lead.text ++ "/".intercalate segs

theorem path_ne_empty (segs : List String) : lead.path segs ≠ "" := by
  cases lead <;> simp [path, text]

theorem parts_ne_nil : lead.parts ≠ [] := by
  cases lead <;> exact List.cons_ne_nil _ _

/-- A lead is its parts with a separator behind each of them. -/
theorem toList_text : lead.text.toList = ['/'].intercalate lead.parts ++ ['/'] := by
  cases lead <;> rfl

theorem slash_not_mem_parts : ∀ part ∈ lead.parts, '/' ∉ part := by
  cases lead <;> decide

theorem up_not_mem_parts : up ∉ lead.parts := by
  cases lead <;> decide

theorem backslash_not_mem_parts : ∀ part ∈ lead.parts, '\\' ∉ part := by
  cases lead <;> decide

theorem backslash_not_mem_parts_append (h : ∀ s ∈ segs, '\\' ∉ s.toList) :
    ∀ part ∈ lead.parts ++ segs.map String.toList, '\\' ∉ part := by
  intro part hpart
  obtain hlead | hsegs := List.mem_append.1 hpart
  · exact lead.backslash_not_mem_parts part hlead
  · obtain ⟨s, hs, rfl⟩ := List.mem_map.1 hsegs
    exact h s hs

theorem split_path_of_not_mem (hne : segs ≠ []) (h : ∀ s ∈ segs, '/' ∉ s.toList) :
    split '/' (lead.path segs).toList = lead.parts ++ segs.map String.toList := by
  rw [path, String.toList_append, toList_text, List.append_assoc, List.singleton_append,
    split_append, split_intercalate lead.slash_not_mem_parts lead.parts_ne_nil,
    split_intercalate_segments hne h]

theorem split_path (hne : segs ≠ []) (h : ∀ s ∈ segs, Plain s) :
    split '/' (lead.path segs).toList = lead.parts ++ segs.map String.toList :=
  lead.split_path_of_not_mem hne fun s hs => (h s hs).slash

theorem up_not_mem_parts_append (h : ∀ s ∈ segs, Plain s) :
    up ∉ lead.parts ++ segs.map String.toList := by
  rw [List.mem_append, not_or]
  exact ⟨lead.up_not_mem_parts, up_not_mem_of_plain h⟩

theorem normal_path (hne : segs ≠ []) (h : ∀ s ∈ segs, Plain s) :
    Normal (lead.path segs).toList := by
  have hsplit := lead.split_path hne h
  obtain ⟨dirs, last, hparts⟩ := exists_split_eq '/' (lead.path segs).toList
  rw [hparts] at hsplit
  refine normal_of_settled hparts ?_ ?_
  · left
    intro hmem
    apply lead.up_not_mem_parts_append h
    rw [← hsplit]
    exact List.mem_append_left _ (List.mem_of_mem_tail hmem)
  · rw [hsplit]
    exact lead.backslash_not_mem_parts_append fun s hs => (h s hs).backslash

theorem isAbsolute_path (segs : List String) : isAbsolute (lead.path segs) = true := by
  rw [isAbsolute, Bool.or_eq_true, List.isPrefixOf_iff_prefix, path, String.toList_append]
  cases lead with
  | root => exact Or.inl (List.prefix_append ['/'] _)
  | http =>
    right
    exact isUrl_iff.2 ⟨_, _, by rw [String.toList_append]; rfl, Or.inl rfl⟩
  | https =>
    right
    exact isUrl_iff.2 ⟨_, _, by rw [String.toList_append]; rfl, Or.inr rfl⟩

/-- The directory of a location whose segments are plain or empty. -/
theorem split_directory_path (h : ∀ s ∈ segs ++ [file], Plain s ∨ s = "") :
    split '/' (directory (lead.path (segs ++ [file]))).toList =
        lead.parts ++ segs.map String.toList ∧
      up ∉ lead.parts ++ segs.map String.toList := by
  have hfree : ∀ s ∈ segs ++ [file], '/' ∉ s.toList ∧ '\\' ∉ s.toList ∧ s.toList ≠ up := by
    intro s hs
    obtain hplain | rfl := h s hs
    · exact ⟨hplain.slash, hplain.backslash, hplain.toList_ne_up⟩
    · decide
  have hsplit : split '/' (lead.path (segs ++ [file])).toList =
      lead.parts ++ (segs ++ [file]).map String.toList :=
    lead.split_path_of_not_mem (by simp) fun s hs => (hfree s hs).1
  have hup : up ∉ lead.parts ++ segs.map String.toList := by
    rw [List.mem_append, not_or]
    refine ⟨lead.up_not_mem_parts, fun hmem => ?_⟩
    obtain ⟨s, hs, hsup⟩ := List.mem_map.1 hmem
    exact (hfree s (List.mem_append_left _ hs)).2.2 hsup
  have hunified : unifySeparators (lead.path (segs ++ [file])).toList =
      (lead.path (segs ++ [file])).toList := by
    apply unifySeparators_of_split
    rw [hsplit]
    exact lead.backslash_not_mem_parts_append fun s hs => (hfree s hs).2.1
  refine ⟨?_, hup⟩
  -- nothing to unify and nothing to take: the directory is all parts but the last
  apply split_directory (List.append_ne_nil_of_left_ne_nil lead.parts_ne_nil _)
  rw [← hunified, List.map_append, ← List.append_assoc] at hsplit
  rw [split_normalize hsplit,
    resolve_of_settled (Or.inl fun hmem => hup (List.mem_of_mem_tail hmem))]

/-- The directory of a path is the path with the segments before the last one. -/
theorem directory_path (hne : segs ≠ []) (h : ∀ s ∈ segs, Plain s) (hfile : Plain file) :
    directory (lead.path (segs ++ [file])) = lead.path segs := by
  have hall := forall_mem_concat_plain h hfile
  apply String.toList_injective
  apply split_injective '/'
  rw [lead.split_path hne h]
  exact (lead.split_directory_path fun s hs => Or.inl (hall s hs)).1

end Lead

/-! ## The segments of a path -/

theorem Lead.segments_path (lead : Lead) (hne : segs ≠ []) (h : ∀ s ∈ segs, Plain s) :
    Path.segments (lead.path segs) = lead.segments ++ segs := by
  have hsegs := split_intercalate_segments hne fun s hs => (h s hs).slash
  obtain ⟨init, name, rfl⟩ := exists_eq_concat hne
  have hname : name.toList ≠ [] := (h name (by simp)).toList_ne_nil
  have hparts := lead.split_path hne h
  rw [List.map_append, List.map_singleton] at hsegs hparts
  rw [← List.append_assoc] at hparts
  -- the root has an empty part in front that is no segment, the lead of a URL has two that are
  cases lead with
  | root =>
    have htext : (Lead.root.path (init ++ [name])).toList =
        '/' :: ("/".intercalate (init ++ [name])).toList := by
      rw [Lead.path, String.toList_append]
      rfl
    rw [segments_of_toList_eq htext, relativeSegments_eq hsegs hname]
    simp [Lead.segments]
  | http
  | https =>
    rw [segments_of_head?_ne (by simp [Lead.path, Lead.text]), relativeSegments_eq hparts hname]
    simp [Lead.parts, Lead.segments]

/-! ## Relative paths -/

/-- The relative path of so many steps up and then these segments. -/
def way (steps : Nat) (segs : List String) : String :=
  "/".intercalate (List.replicate steps ".." ++ segs)

theorem split_way (steps : Nat) (hne : steps ≠ 0 ∨ segs ≠ []) (h : ∀ s ∈ segs, Plain s) :
    split '/' (way steps segs).toList = List.replicate steps up ++ segs.map String.toList := by
  have hall : ∀ s ∈ List.replicate steps ".." ++ segs, '/' ∉ s.toList := by
    intro s hs
    obtain hup | hplain := List.mem_append.1 hs
    · rw [List.eq_of_mem_replicate hup]
      decide
    · exact (h s hplain).slash
  have hlist : List.replicate steps ".." ++ segs ≠ [] := by
    obtain hsteps | hsegs := hne
    · exact List.append_ne_nil_of_left_ne_nil (by simpa using hsteps) segs
    · exact List.append_ne_nil_of_right_ne_nil _ hsegs
  rw [way, split_intercalate_segments hlist hall, List.map_append, List.map_replicate, toList_up]

/-- The way that leads nowhere has no text. -/
theorem way_zero_nil : way 0 [] = "" := rfl

/-- Steps up at the front of a relative path are taken by nothing: one is the first part, and of
more of them the second one is stuck. -/
theorem settled_replicate (steps : Nat) (h : up ∉ dirs) :
    Settled (List.replicate steps up ++ dirs) := by
  match steps with
  | 0 => exact Or.inl fun hmem => h (List.mem_of_mem_tail hmem)
  | 1 => exact Or.inl h
  | steps + 2 => exact Or.inr rfl

theorem normal_way (steps : Nat) (h : ∀ s ∈ segs, Plain s) : Normal (way steps segs).toList := by
  by_cases hne : steps ≠ 0 ∨ segs ≠ []
  · have hsplit := split_way steps hne h
    obtain ⟨dirs, last, hparts⟩ := exists_split_eq '/' (way steps segs).toList
    rw [hparts] at hsplit
    have hsettled : Settled (dirs ++ [last]) := by
      rw [hsplit]
      exact settled_replicate steps (up_not_mem_of_plain h)
    refine normal_of_settled hparts hsettled.of_append ?_
    rw [hsplit]
    intro part hpart
    obtain hup | hsegs := List.mem_append.1 hpart
    · rw [List.eq_of_mem_replicate hup]
      decide
    · obtain ⟨s, hs, rfl⟩ := List.mem_map.1 hsegs
      exact (h s hs).backslash
  · obtain ⟨hsteps, hsegs⟩ := not_or.1 hne
    rw [Classical.not_not.1 hsteps, Classical.not_not.1 hsegs, way_zero_nil]
    exact normalize_eq_self_iff.1 (by decide +kernel)

theorem isAbsolute_way (steps : Nat) (h : ∀ s ∈ segs, Plain s) :
    isAbsolute (way steps segs) = false := by
  by_cases hne : steps ≠ 0 ∨ segs ≠ []
  · apply isAbsolute_eq_false_of_parts
    rw [split_way steps hne h, List.mem_append, not_or]
    constructor
    · intro hmem
      exact nomatch List.eq_of_mem_replicate hmem
    · intro hmem
      obtain ⟨s, hs, hnil⟩ := List.mem_map.1 hmem
      exact (h s hs).toList_ne_nil hnil
  · obtain ⟨hsteps, hsegs⟩ := not_or.1 hne
    rw [Classical.not_not.1 hsteps, Classical.not_not.1 hsegs, way_zero_nil]
    decide +kernel

end Locator.Path
