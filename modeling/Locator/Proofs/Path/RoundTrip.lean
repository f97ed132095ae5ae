import Locator.Proofs.Path.Plain

/-!
# There and back again

`relativeTo` writes the way from one absolute path to another, `combine` goes that way. Between
paths of plain segments both are operations on lists of segments: leave out what the two have in
common, or put it back.

* `take_commonLength`, `commonLength_eq_zero_iff`: what two lists have in common
* `relativeTo_path`: the way from one path to another
* `combine_way`: where a way leads from a path
* `combine_relativeTo_iff`, `relativeTo_combine_iff`: when the one undoes the other
-/

namespace Locator.Path

open Text

variable {steps : Nat} {file parent child : String} {segs rest dir target : List String}

/-! ## Common beginnings -/

section Common

variable {α : Type} [BEq α]

theorem commonLength_le (as bs : List α) :
    commonLength as bs ≤ as.length ∧ commonLength as bs ≤ bs.length := by
  fun_induction commonLength as bs with
  | case1 a as b bs hab ih =>
    simp only [List.length_cons]
    omega
  | case2 a as b bs hab => exact ⟨Nat.zero_le _, Nat.zero_le _⟩
  | case3 => exact ⟨Nat.zero_le _, Nat.zero_le _⟩

variable [LawfulBEq α]

theorem commonLength_append (front as bs : List α) :
    commonLength (front ++ as) (front ++ bs) = front.length + commonLength as bs := by
  induction front with
  | nil => simp
  | cons first front ih =>
    rw [List.cons_append, List.cons_append, commonLength, if_pos (beq_self_eq_true first), ih,
      List.length_cons]
    omega

/-- A list and a change of it from some place on have in common what is in front of that place, and
what the two have in common behind it. -/
theorem commonLength_take_append {k : Nat} (as bs : List α) (h : k ≤ as.length) :
    commonLength as (as.take k ++ bs) = k + commonLength (as.drop k) bs := by
  have happend := commonLength_append (as.take k) (as.drop k) bs
  rwa [List.take_append_drop, List.length_take, Nat.min_eq_left h] at happend

/-- Up to their common length two lists are the same. -/
theorem take_commonLength (as bs : List α) :
    as.take (commonLength as bs) = bs.take (commonLength as bs) := by
  fun_induction commonLength as bs with
  | case1 a as b bs hab ih => rw [List.take_succ_cons, List.take_succ_cons, ih, eq_of_beq hab]
  | case2 a as b bs hab => rfl
  | case3 => rfl

/-- Nothing is in common when one of the lists is empty or their first elements differ. -/
theorem commonLength_eq_zero_iff (as bs : List α) :
    commonLength as bs = 0 ↔ as = [] ∨ bs = [] ∨ bs.head? ≠ as.head? := by
  cases as with
  | nil => simp [commonLength]
  | cons a as =>
    cases bs with
    | nil => simp [commonLength]
    | cons b bs =>
      by_cases hab : a = b
      · simp [commonLength, hab]
      · simp [commonLength, hab, Ne.symm hab]

/-- All of a list is in common with another one exactly when it is the beginning of it. -/
theorem drop_commonLength_eq_nil_iff (as bs : List α) :
    bs.drop (commonLength as bs) = [] ↔ bs <+: as := by
  constructor
  · intro hnil
    have hall : bs.take (commonLength as bs) = bs := by
      have happend := List.take_append_drop (commonLength as bs) bs
      rwa [hnil, List.append_nil] at happend
    rw [← hall, ← take_commonLength]
    exact List.take_prefix _ as
  · rintro ⟨more, rfl⟩
    have hcommon := commonLength_append bs more []
    rw [List.append_nil] at hcommon
    rw [hcommon]
    simp

end Common

/-! ## The way from a path to another -/

theorem foldl_joinSegments {joined : String} (hjoined : joined ≠ "") (segs : List String) :
    segs.foldl
      (fun joined segment => if joined.isEmpty then segment else joined ++ "/" ++ segment) joined =
      "/".intercalate (joined :: segs) := by
  induction segs generalizing joined with
  | nil => simp
  | cons segment segs ih =>
    have hmore : joined ++ "/" ++ segment ≠ "" := by simp
    have hempty : ¬ joined.isEmpty = true := by simpa using hjoined
    rw [List.foldl_cons, if_neg hempty, ih hmore]
    simp [String.append_assoc]

/-- Empty segments in front are left out, and the others are joined with one separator between any
two of them. -/
theorem joinSegments_eq (segs : List String) :
    joinSegments segs = "/".intercalate (segs.dropWhile (· == "")) := by
  induction segs with
  | nil => rfl
  | cons segment segs ih =>
    by_cases hempty : segment = ""
    · subst hempty
      exact ih
    · rw [List.dropWhile_cons_of_neg (by simpa using hempty), joinSegments, List.foldl_cons,
        if_pos (by rfl)]
      exact foldl_joinSegments hempty segs

theorem joinSegments_eq_intercalate (h : ∀ s ∈ segs, s ≠ "") :
    joinSegments segs = "/".intercalate segs := by
  rw [joinSegments_eq]
  cases segs with
  | nil => rfl
  | cons segment segs =>
    rw [List.dropWhile_cons_of_neg (by simpa using h segment List.mem_cons_self)]

/-- Up out of all directories that are not shared, and then down. -/
theorem relativeTo_path (lead : Lead) (hne : dir ≠ []) (hdir : ∀ s ∈ dir, Plain s)
    (hfile : Plain file) (htne : target ≠ []) (htarget : ∀ s ∈ target, Plain s) :
    relativeTo (lead.path (dir ++ [file])) (lead.path target) =
      way (dir.length - commonLength dir target) (target.drop (commonLength dir target)) := by
  have hnonempty : ∀ s ∈ List.replicate (dir.length - commonLength dir target) ".." ++
      target.drop (commonLength dir target), s ≠ "" := by
    intro s hs
    obtain hup | hdown := List.mem_append.1 hs
    · rw [List.eq_of_mem_replicate hup]
      decide
    · exact (htarget s (List.mem_of_mem_drop hdown)).ne_empty
  have hdrop : (lead.segments ++ target).drop (lead.segments.length + commonLength dir target) =
      target.drop (commonLength dir target) := by
    rw [List.drop_append, List.drop_eq_nil_of_le (Nat.le_add_right _ _), List.nil_append,
      Nat.add_sub_cancel_left]
  -- both have the lead in common, and it is left out with what else they share
  simp only [relativeTo, (lead.normal_path htne htarget).normalize_eq, lead.isAbsolute_path target,
    if_true, lead.directory_path hne hdir hfile, lead.segments_path hne hdir,
    lead.segments_path htne htarget, commonLength_append, List.length_append,
    Nat.add_sub_add_left, hdrop]
  rw [joinSegments_eq_intercalate hnonempty, way]

/-! ## Where a way leads -/

/-- Reading a way from a directory is walking on along it: it is in normal form, and it is not
absolute. -/
theorem split_combine_way {dirs : List (List Char)} {last : List Char} (hparent : parent ≠ "")
    (hrest : ∀ s ∈ rest, Plain s) (hparts : split '/' (way steps rest).toList = dirs ++ [last]) :
    split '/' (combine (some parent) (way steps rest)).toList =
      resolve (split '/' (directory parent).toList ++ dirs) ++ [last] := by
  have hnormal := (normal_way steps hrest).normalize_eq
  apply split_combine hparent
  · rw [hnormal]
    exact isAbsolute_way steps hrest
  · rw [hnormal, hparts]

/-- A way that goes up no further than the segments of a directory, and then down. -/
theorem combine_way (lead : Lead) (hne : dir ≠ []) (hdir : ∀ s ∈ dir, Plain s)
    (hfile : Plain file) (hsteps : steps ≤ dir.length) (hrne : rest ≠ [])
    (hrest : ∀ s ∈ rest, Plain s) :
    combine (some (lead.path (dir ++ [file]))) (way steps rest) =
      lead.path (dir.take (dir.length - steps) ++ rest) := by
  obtain ⟨init, name, rfl⟩ := exists_eq_concat hrne
  have hparts : split '/' (way steps (init ++ [name])).toList =
      (List.replicate steps up ++ init.map String.toList) ++ [name.toList] := by
    rw [split_way steps (Or.inr hrne) hrest]
    simp
  have hdirectory : split '/' (directory (lead.path (dir ++ [file]))).toList =
      lead.parts ++ dir.map String.toList := by
    rw [lead.directory_path hne hdir hfile, lead.split_path hne hdir]
  have hinit : up ∉ init.map String.toList :=
    up_not_mem_of_plain fun s hs => hrest s (List.mem_append_left _ hs)
  have hresult : ∀ s ∈ dir.take (dir.length - steps) ++ (init ++ [name]), Plain s := by
    intro s hs
    obtain hs | hs := List.mem_append.1 hs
    · exact hdir s (List.mem_of_mem_take hs)
    · exact hrest s hs
  -- the lead stands in front of all the directories, so there are levels enough
  have hlead : 0 < lead.parts.length := List.length_pos_iff.2 lead.parts_ne_nil
  have hlen : (lead.parts ++ dir.map String.toList).length = lead.parts.length + dir.length := by
    rw [List.length_append, List.length_map]
  have htake : (lead.parts ++ dir.map String.toList).take
      ((lead.parts ++ dir.map String.toList).length - steps) =
        lead.parts ++ (dir.take (dir.length - steps)).map String.toList := by
    have hmore : lead.parts.length + dir.length - steps =
        lead.parts.length + (dir.length - steps) := by omega
    rw [hlen, hmore, List.take_length_add_append, List.map_take]
  apply String.toList_injective
  apply split_injective '/'
  rw [split_combine_way (lead.path_ne_empty _) hrest hparts, hdirectory,
    resolve_replicate (fun hmem => lead.up_not_mem_parts_append hdir (List.mem_of_mem_tail hmem))
      (by omega) hinit, htake, lead.split_path (by simp) hresult]
  simp

/-- A way that only goes up does not lead to a path of plain segments: what it leads to ends in a
step up, or in nothing. -/
theorem combine_way_nil_ne (lead : Lead) (hparent : parent ≠ "") (htne : target ≠ [])
    (htarget : ∀ s ∈ target, Plain s) :
    combine (some parent) (way steps []) ≠ lead.path target := by
  intro heq
  have hplain : ∀ s ∈ ([] : List String), Plain s := fun s hs => absurd hs List.not_mem_nil
  obtain ⟨dirs, last, hparts⟩ := exists_split_eq '/' (way steps []).toList
  have hcombined := split_combine_way hparent hplain hparts
  obtain ⟨init, name, rfl⟩ := exists_eq_concat htne
  have hname := htarget name (by simp)
  -- the last part of the way is the name at the end of the target
  have hlast : last = name.toList := by
    rw [heq, lead.split_path htne htarget, List.map_append, List.map_singleton,
      ← List.append_assoc] at hcombined
    exact (List.cons.inj (List.append_inj_right' hcombined.symm rfl)).1
  by_cases hsteps : steps = 0
  · have hnil : split '/' (way steps []).toList = [[]] := by
      rw [hsteps, way_zero_nil]
      rfl
    have hmem : last ∈ [([] : List Char)] := by
      rw [← hnil, hparts]
      simp
    exact hname.toList_ne_nil (hlast ▸ List.mem_singleton.1 hmem)
  · have hmem : last ∈ List.replicate steps up ++ [] := by
      have hups := split_way steps (Or.inl hsteps) hplain
      rw [List.map_nil] at hups
      rw [← hups, hparts]
      simp
    rw [List.append_nil] at hmem
    exact hname.toList_ne_up (hlast ▸ List.eq_of_mem_replicate hmem)

/-- Fewer steps up and fewer segments make another text. -/
theorem way_drop_eq_iff {shared : Nat} (hsteps : shared ≤ steps) (hshared : shared ≤ rest.length)
    (hrne : rest ≠ []) (hrest : ∀ s ∈ rest, Plain s) :
    way (steps - shared) (rest.drop shared) = way steps rest ↔ shared = 0 := by
  constructor
  · intro heq
    have hparts := split_way steps (Or.inr hrne) hrest
    rw [← heq] at hparts
    by_cases hleft : steps - shared ≠ 0 ∨ rest.drop shared ≠ []
    · -- both texts have as many parts as they have steps and segments
      rw [split_way _ hleft fun s hs => hrest s (List.mem_of_mem_drop hs)] at hparts
      have hlen := congrArg List.length hparts
      simp only [List.length_append, List.length_replicate, List.length_map,
        List.length_drop] at hlen
      omega
    · obtain ⟨hzero, hnil⟩ := not_or.1 hleft
      rw [Classical.not_not.1 hzero, Classical.not_not.1 hnil, way_zero_nil] at hparts
      have hempty : split '/' "".toList = [[]] := rfl
      rw [hempty] at hparts
      -- the empty text is one empty part, and the way has none
      have hmem : [] ∈ List.replicate steps up ++ rest.map String.toList :=
        hparts ▸ List.mem_singleton_self []
      obtain hup | hname := List.mem_append.1 hmem
      · exact nomatch List.eq_of_mem_replicate hup
      · obtain ⟨s, hs, hsnil⟩ := List.mem_map.1 hname
        exact absurd hsnil (hrest s hs).toList_ne_nil
  · rintro rfl
    rfl

/-! ## Round trips -/

/-- Going the way from a path to another one leads to the other one, unless it is one of the
directories that the first one is in. The host of a URL counts as its first segment, so it may
differ, and `dir` is never empty: below `/` there has to be a directory. -/
theorem combine_relativeTo_iff (lead : Lead) (hne : dir ≠ []) (hdir : ∀ s ∈ dir, Plain s)
    (hfile : Plain file) (htne : target ≠ []) (htarget : ∀ s ∈ target, Plain s) :
    combine (some (lead.path (dir ++ [file])))
        (relativeTo (lead.path (dir ++ [file])) (lead.path target)) = lead.path target ↔
      ¬ target <+: dir := by
  rw [relativeTo_path lead hne hdir hfile htne htarget, ← drop_commonLength_eq_nil_iff]
  constructor
  · intro heq hnil
    rw [hnil] at heq
    exact combine_way_nil_ne lead (lead.path_ne_empty _) htne htarget heq
  · intro hrest
    have hle := (commonLength_le dir target).1
    rw [combine_way lead hne hdir hfile (Nat.sub_le _ _) hrest
      (fun s hs => htarget s (List.mem_of_mem_drop hs)), Nat.sub_sub_self hle,
      take_commonLength, List.take_append_drop]

/-- The way to where a way leads is the way itself, unless it goes down again into the directory
that it left last. The host of a URL counts as the first of the directories. -/
theorem relativeTo_combine_iff (lead : Lead) (steps : Nat) (hne : dir ≠ [])
    (hdir : ∀ s ∈ dir, Plain s) (hfile : Plain file) (hsteps : steps ≤ dir.length)
    (hrne : rest ≠ []) (hrest : ∀ s ∈ rest, Plain s) :
    relativeTo (lead.path (dir ++ [file]))
        (combine (some (lead.path (dir ++ [file]))) (way steps rest)) = way steps rest ↔
      steps = 0 ∨ rest.head? ≠ dir[dir.length - steps]? := by
  have htarget : ∀ s ∈ dir.take (dir.length - steps) ++ rest, Plain s := by
    intro s hs
    obtain hs | hs := List.mem_append.1 hs
    · exact hdir s (List.mem_of_mem_take hs)
    · exact hrest s hs
  -- what the target shares with the directory: what was kept, and what the way comes back into
  have hcommon := commonLength_take_append dir rest (Nat.sub_le dir.length steps)
  obtain ⟨hleft, hright⟩ := commonLength_le (dir.drop (dir.length - steps)) rest
  rw [List.length_drop] at hleft
  have hup : dir.length -
      (dir.length - steps + commonLength (dir.drop (dir.length - steps)) rest) =
        steps - commonLength (dir.drop (dir.length - steps)) rest := by omega
  have hdown : (dir.take (dir.length - steps) ++ rest).drop
      (dir.length - steps + commonLength (dir.drop (dir.length - steps)) rest) =
        rest.drop (commonLength (dir.drop (dir.length - steps)) rest) := by
    have hkept : (dir.take (dir.length - steps)).length = dir.length - steps := by
      rw [List.length_take]
      omega
    rw [List.drop_append, List.drop_eq_nil_of_le (by omega), List.nil_append, hkept,
      Nat.add_sub_cancel_left]
  have hnone : dir.drop (dir.length - steps) = [] ↔ steps = 0 := by
    have hpos := List.length_pos_iff.2 hne
    rw [List.drop_eq_nil_iff]
    omega
  rw [combine_way lead hne hdir hfile hsteps hrne hrest,
    relativeTo_path lead hne hdir hfile (List.append_ne_nil_of_right_ne_nil _ hrne) htarget,
    hcommon, hup, hdown, way_drop_eq_iff (by omega) hright hrne hrest, commonLength_eq_zero_iff,
    hnone, List.head?_drop]
  simp [hrne]

/-- The way to another host leads there, and the way to a directory of the path itself does not. -/
theorem combine_relativeTo_other_host :
    (∀ s ∈ ["host", "a", "b"], Plain s) ∧ Plain "main.bob" ∧
      (∀ s ∈ ["other", "c.png"], Plain s) ∧
      relativeTo "https://host/a/b/main.bob" "https://other/c.png" = "../../../other/c.png" ∧
      combine (some "https://host/a/b/main.bob")
        (relativeTo "https://host/a/b/main.bob" "https://other/c.png") = "https://other/c.png" ∧
      combine (some "https://host/a/b/main.bob")
        (relativeTo "https://host/a/b/main.bob" "https://host/a") ≠ "https://host/a" := by
  have hdir : ∀ s ∈ ["host", "a", "b"], Plain s := by decide
  have hfile : Plain "main.bob" := by decide
  have htarget : ∀ s ∈ ["other", "c.png"], Plain s := by decide
  have hother := combine_relativeTo_iff Lead.https (by simp) hdir hfile (by simp) htarget
  have hown := combine_relativeTo_iff Lead.https (by simp) hdir hfile
    (show ["host", "a"] ≠ [] by simp) (by decide)
  refine ⟨hdir, hfile, htarget, by decide +kernel, hother.2 (by decide), ?_⟩
  exact fun h => hown.1 h (by decide)

/-- Up to the root and down into another directory, or down again into the one just left. -/
theorem relativeTo_combine_up_to_root :
    (∀ s ∈ ["a", "b"], Plain s) ∧ Plain "main.bob" ∧ 2 ≤ ["a", "b"].length ∧
      combine (some "/a/b/main.bob") "../../c/d.png" = "/c/d.png" ∧
      relativeTo "/a/b/main.bob" (combine (some "/a/b/main.bob") "../../c/d.png") =
        "../../c/d.png" ∧
      relativeTo "/a/b/main.bob" (combine (some "/a/b/main.bob") "../../a/d.png") ≠
        "../../a/d.png" := by
  have hdir : ∀ s ∈ ["a", "b"], Plain s := by decide
  have hfile : Plain "main.bob" := by decide
  have hsteps : 2 ≤ ["a", "b"].length := by decide
  have hother := relativeTo_combine_iff Lead.root 2 (by simp) hdir hfile hsteps
    (show ["c", "d.png"] ≠ [] by simp) (by decide)
  have hsame := relativeTo_combine_iff Lead.root 2 (by simp) hdir hfile hsteps
    (show ["a", "d.png"] ≠ [] by simp) (by decide)
  refine ⟨hdir, hfile, hsteps, by decide +kernel, hother.2 (by decide), ?_⟩
  exact fun h => absurd (hsame.1 h) (by decide)

end Locator.Path
