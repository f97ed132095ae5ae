import Locator.Proofs.Config.Leaves
import Locator.Proofs.Files.Upwards

/-!
# The nearest configuration files

The search for the files of a project goes up from a directory and ends at the first one that holds
any. So the files that apply are those of the nearest directory that has one, and loading them is
reading these files and no others, one after the other.

* `discover_eq`: the files of a project that are read
* `load_eq`: all files that are read
* `mapM_eq`: what reading one after the other comes to
-/

namespace Locator.Config

open Files (FileSystem)

variable {files : FileSystem} {directory : List Char} {location : String} {precedence : Nat}

/-! ## One after the other -/

section

variable {α β : Type} {f : α → Except Error β} {items : List α} {results : List β}

/-- The first failure ends it; without one there are all results. -/
theorem mapM_eq (f : α → Except Error β) (items : List α) :
    items.mapM f =
      match items.findSome? fun item => fault? (f item) with
      | some error => .error error
      | none => .ok (items.filterMap fun item => (f item).toOption) := by
  induction items with
  | nil => rfl
  | cons item rest ih =>
    rw [List.mapM_cons, List.findSome?_cons, ih]
    cases hitem : f item with
    | error error => rfl
    | ok result =>
      rw [List.filterMap_cons_some (by rw [hitem]; rfl)]
      cases rest.findSome? fun item => fault? (f item) <;> rfl

theorem isEmpty_of_mapM (h : items.mapM f = .ok results) : results.isEmpty = items.isEmpty := by
  cases items with
  | nil =>
    cases h
    rfl
  | cons item rest =>
    rw [List.mapM_cons] at h
    cases hitem : f item with
    | error error =>
      rw [hitem] at h
      cases h
    | ok result =>
      rw [hitem] at h
      cases hrest : rest.mapM f with
      | error error =>
        rw [hrest] at h
        cases h
      | ok others =>
        rw [hrest] at h
        cases h
        rfl

/-- Reading two lists of items, and going on with something else if there were none. -/
theorem mapM_or_next (front back : List α) (next : Except Error (List β)) :
    (do
      let first ← front.mapM f
      let second ← back.mapM f
      if !(first ++ second).isEmpty then return first ++ second else next) =
      if (front ++ back).isEmpty then next else (front ++ back).mapM f := by
  cases hitems : (front ++ back).isEmpty with
  | true =>
    obtain ⟨rfl, rfl⟩ := List.append_eq_nil_iff.1 (List.isEmpty_iff.1 hitems)
    rfl
  | false =>
    -- some items are there, so their results are not empty and `next` is not asked
    have hresults {results : List β} (h : (front ++ back).mapM f = .ok results) :
        results.isEmpty = false := (isEmpty_of_mapM h).trans hitems
    rw [if_neg Bool.false_ne_true]
    rw [List.mapM_append] at hresults ⊢
    cases hfront : front.mapM f with
    | error error => rfl
    | ok first =>
      cases hback : back.mapM f with
      | error error => rfl
      | ok second =>
        rw [hfront, hback] at hresults
        have hboth : (first ++ second).isEmpty = false := hresults rfl
        show (if (!(first ++ second).isEmpty) = true then pure (first ++ second) else next) = _
        rw [hboth]
        rfl

end

/-! ## The files of a project -/

/-- A file that a configuration may be read from, and its precedence. -/
abbrev Candidate := String × Nat

/-- Reads the configuration of a file. -/
def readSource (files : FileSystem) (candidate : Candidate) : Except Error Source :=
  (loadFile files candidate.1).map fun config =>
    { location := candidate.1, precedence := candidate.2, config }

/-- The candidates at whose locations there is something. -/
def present (files : FileSystem) (candidates : List Candidate) : List Candidate :=
  candidates.filter fun candidate => files.exists? candidate.1

/-- The files that a project may have in a directory. -/
def projectCandidates (directory : String) : List Candidate :=
  [(within directory projectFile, 2), (within directory localFile, 3)]

/-- The nearest directory, from a location upwards, that has a file of a project. -/
def nearest? (files : FileSystem) (start : String) : Option String :=
  ((CommandLine.selfAndAbove start.toList).map String.ofList).find? fun directory =>
    !(present files (projectCandidates directory)).isEmpty

theorem loadIfPresent_eq (files : FileSystem) (location : String) (precedence : Nat) :
    loadIfPresent files location precedence =
      (present files [(location, precedence)]).mapM (readSource files) := by
  rw [loadIfPresent, present, List.filter_singleton]
  cases files.exists? location with
  | false => rfl
  | true =>
    rw [if_pos rfl, cond_true, List.mapM_cons, readSource]
    cases loadFile files location <;> rfl

/-- The search ends in a directory that has files of a project. -/
theorem discover_step (files : FileSystem) (directory : List Char) :
    discover files directory =
      let found := present files (projectCandidates (String.ofList directory))
      if found.isEmpty then ((Files.parent? directory).map (discover files)).getD (.ok [])
      else found.mapM (readSource files) := by
  have hfound : present files (projectCandidates (String.ofList directory)) =
      present files [(within (String.ofList directory) projectFile, 2)] ++
        present files [(within (String.ofList directory) localFile, 3)] := by
    rw [present, present, present, ← List.filter_append]
    rfl
  rw [discover, loadIfPresent_eq, loadIfPresent_eq, mapM_or_next, hfound]
  cases Files.parent? directory <;> rfl

/-- What is read for a project are the files of the nearest directory that has any. -/
theorem discover_eq (files : FileSystem) (start : String) :
    discover files start.toList =
      ((nearest? files start).toList.flatMap fun directory =>
        present files (projectCandidates directory)).mapM (readSource files) := by
  rw [nearest?]
  generalize start.toList = directory
  -- along the directories going up, which is how the search itself goes
  induction directory using CommandLine.selfAndAbove.induct with
  | case1 directory ih =>
    rw [discover_step, Files.selfAndAbove_eq, List.map_cons, List.find?_cons]
    cases hfound : (present files (projectCandidates (String.ofList directory))).isEmpty with
    | false =>
      simp only [hfound, Bool.false_eq_true, if_false, Bool.not_false]
      rw [Option.toList_some, List.flatMap_singleton]
    | true =>
      simp only [hfound, if_true, Bool.not_true]
      cases hparent : Files.parent? directory with
      | none => rfl
      | some parent => exact ih parent hparent

/-! ## All files -/

/-- The directory of the user's configuration, the given one or the default. -/
def homeOf (environment : Environment) : Option String → Except Error String
  | some directory => .ok directory
  | none => defaultDirectory environment

/-- The files that may apply, in the order of their precedence. -/
def candidates (files : FileSystem) (start home : String) : List Candidate :=
  (within home userFile, 1) :: (nearest? files start).toList.flatMap projectCandidates

/-- What is read are the files that apply and are there. -/
theorem load_eq {environment : Environment} {userDirectory : Option String} {home : String}
    (hhome : homeOf environment userDirectory = .ok home) (start : String) :
    load files environment start userDirectory =
      (present files (candidates files start home)).mapM (readSource files) := by
  -- the file of the user is one more candidate, in front of those of the project
  have huser : loadUser files environment userDirectory =
      loadIfPresent files (within home userFile) 1 := by
    cases userDirectory with
    | some directory =>
      obtain rfl : directory = home := Except.ok.inj hhome
      rfl
    | none =>
      have hdefault : defaultDirectory environment = .ok home := hhome
      rw [loadUser, hdefault]
      rfl
  have hpresent : present files (candidates files start home) =
      present files [(within home userFile, 1)] ++
        (nearest? files start).toList.flatMap fun directory =>
          present files (projectCandidates directory) := by
    rw [candidates, present, present, ← List.singleton_append, List.filter_append,
      List.filter_flatMap]
    rfl
  rw [load, huser, loadIfPresent_eq, discover_eq, hpresent, List.mapM_append]

end Locator.Config
