import Locator.Path.Relative
import Locator.Proofs.Path.Collapse

/-!
# Paths in normal form

What the path functions give back is in normal form, and paths in normal form stay as they are.

* `normalize_eq_self_iff_runs`: normal form, read off the characters of a path
* `head?_normalize_eq_slash_iff`: which paths start at the root once they are normalized
* `normal_directory`, `directory_normalize`: the directory of a path
* `split_combine`: the parts of a path that is read from a directory
* `path_algebra_closed`: all of it together
-/

namespace Locator.Path

open Text

variable {path shorter front back last : List Char} {dirs : List (List Char)}
  {p parent child : String}

/-! ## Normal form on characters -/

theorem normalize_eq_self_iff_runs :
    normalize p = p ↔
      EvenRuns p.toList ∧ ∀ before, LeftmostClimb p.toList before → '/' ∉ before := by
  rw [normalize_eq_self_iff, ← unifySeparators_eq_self_iff, ← cancelClimb_eq_none_iff]
  exact ⟨fun h => ⟨h.unified, h.settled⟩, fun h => ⟨h.1, h.2⟩⟩

/-- Cancelling keeps what stands in front of the first separator, and one separator behind it. -/
theorem head?_cancelClimb (h : cancelClimb path = some shorter) : shorter.head? = path.head? := by
  obtain ⟨before, after, kept, hsplit, hkept, rfl⟩ := cancelClimb_eq_some_iff.1 h
  obtain ⟨part, -, rfl⟩ := beforeLastSlash_eq_some_iff.1 hkept
  rw [eq_of_splitClimb hsplit]
  cases kept with
  | nil => rfl
  | cons c tail => rfl

theorem head?_collapse (path : List Char) : (collapse path).head? = path.head? := by
  fun_induction collapse path with
  | case1 path shorter hcancel ih => exact ih.trans (head?_cancelClimb hcancel)
  | case2 path hcancel => rfl

theorem head?_normalize_eq_slash_iff :
    (normalize p).toList.head? = some '/' ↔
      p.toList.head? = some '/' ∨ (p.toList.takeWhile (· == '\\')).length = 1 := by
  rw [normalize, String.toList_ofList, head?_collapse, head?_unifySeparators_eq_slash_iff]

/-! ## Directories -/

/-- The directory of a path is what its normal form has in front of the last separator; a name on
its own lives in `.`. -/
theorem directory_cases (p : String) :
    (∃ last, '/' ∉ last ∧ (normalize p).toList = (directory p).toList ++ '/' :: last) ∨
      directory p = "." := by
  rw [directory]
  cases hfront : beforeLastSlash (normalize p).toList with
  | none => exact Or.inr rfl
  | some front =>
    rw [String.toList_ofList]
    exact Or.inl (beforeLastSlash_eq_some_iff.1 hfront)

theorem directory_of_normalize_eq {last : List Char} (hlast : '/' ∉ last)
    (h : (normalize p).toList = front ++ '/' :: last) : directory p = String.ofList front := by
  rw [directory, beforeLastSlash_eq_some_iff.2 ⟨last, hlast, h⟩]

/-- The parts of the directory are the parts of the normal form without the last one. -/
theorem split_directory (hne : dirs ≠ [])
    (h : split '/' (normalize p).toList = dirs ++ [last]) :
    split '/' (directory p).toList = dirs := by
  obtain ⟨front, name, hp, hfront, hname⟩ :=
    exists_of_split_eq_append hne (List.cons_ne_nil last []) h
  obtain ⟨rfl, hslash⟩ := eq_of_split_eq_singleton hname
  rw [directory_of_normalize_eq hslash hp, String.toList_ofList, hfront]

theorem normal_directory (p : String) : Normal (directory p).toList := by
  obtain ⟨last, -, h⟩ | h := directory_cases p
  · exact (h ▸ normal_normalize p).of_append_slash
  · rw [h]
    exact normalize_eq_self_iff.1 (by decide +kernel)

theorem directory_normalize (p : String) : directory (normalize p) = directory p := by
  rw [directory, normalize_normalize, directory]

/-- No step up can be taken in the directory of a path. -/
theorem settled_directory (p : String) : Settled (split '/' (directory p).toList) := by
  obtain ⟨last, hlast, h⟩ | h := directory_cases p
  · have hparts : split '/' (normalize p).toList =
        split '/' (directory p).toList ++ [last] := by
      rw [h, split_append, split_of_not_mem hlast]
    exact (normal_normalize p).settled_dirs hparts
  · rw [h]
    exact Or.inl (by decide)

/-! ## Combining -/

theorem combine_of_isAbsolute (hparent : parent ≠ "")
    (hchild : isAbsolute (normalize child) = true) :
    combine (some parent) child = normalize child := by
  simp [combine, hparent, hchild]

theorem combine_of_relative (hparent : parent ≠ "")
    (hchild : isAbsolute (normalize child) = false) :
    combine (some parent) child = normalize (directory parent ++ "/" ++ normalize child) := by
  simp [combine, hparent, hchild, directory_normalize]

theorem normalize_combine (hparent : parent ≠ "") (child : String) :
    normalize (combine (some parent) child) = combine (some parent) child := by
  cases hchild : isAbsolute (normalize child) with
  | true => rw [combine_of_isAbsolute hparent hchild, normalize_normalize]
  | false => rw [combine_of_relative hparent hchild, normalize_normalize]

/-- Reading a path from a directory is walking on from there. -/
theorem split_combine (hparent : parent ≠ "") (hchild : isAbsolute (normalize child) = false)
    (hdirs : split '/' (normalize child).toList = dirs ++ [last]) :
    split '/' (combine (some parent) child).toList =
      resolve (split '/' (directory parent).toList ++ dirs) ++ [last] := by
  have htext : (directory parent ++ "/" ++ normalize child).toList =
      (directory parent).toList ++ '/' :: (normalize child).toList := by
    simp
  rw [combine_of_relative hparent hchild]
  apply split_normalize
  -- neither side has a lone backslash, and the separator between them keeps the runs apart
  rw [htext, unifySeparators_append_slash, (normal_directory parent).unified,
    (normal_normalize child).unified, split_append, hdirs, List.append_assoc]

/-! ## Closure -/

/-- Normalizing is done after one pass and gives exactly the paths with even runs of backslashes
whose leftmost `/../` has no separator in front of it; it moves no path to the root or away from it,
but for one that starts with a lone backslash. Directories and combined paths are in normal form,
and a path and its normal form have the same directory. -/
theorem path_algebra_closed (p parent child : String) :
    normalize (normalize p) = normalize p ∧
    (normalize p = p ↔
      EvenRuns p.toList ∧ ∀ before, LeftmostClimb p.toList before → '/' ∉ before) ∧
    ((normalize p).toList.head? = some '/' ↔
      p.toList.head? = some '/' ∨ (p.toList.takeWhile (· == '\\')).length = 1) ∧
    normalize (directory p) = directory p ∧
    directory (normalize p) = directory p ∧
    (parent ≠ "" → normalize (combine (some parent) child) = combine (some parent) child) := by
  refine ⟨normalize_normalize p, normalize_eq_self_iff_runs, head?_normalize_eq_slash_iff, ?_,
    directory_normalize p, ?_⟩
  · exact (normal_directory p).normalize_eq
  · intro hparent
    exact normalize_combine hparent child

/-- A parent with separators of both kinds and a step up that is stuck, and a child that climbs. -/
theorem path_algebra_closed_stuck_parent :
    "x/../a\\b\\main.bob" ≠ "" ∧
      combine (some "x/../a\\b\\main.bob") "..\\c.png" = "x/../a/b/../c.png" ∧
      normalize (combine (some "x/../a\\b\\main.bob") "..\\c.png") =
        combine (some "x/../a\\b\\main.bob") "..\\c.png" := by
  obtain ⟨-, -, -, -, -, hcombine⟩ :=
    path_algebra_closed "" "x/../a\\b\\main.bob" "..\\c.png"
  exact ⟨by decide, by decide +kernel, hcombine (by decide)⟩

end Locator.Path
