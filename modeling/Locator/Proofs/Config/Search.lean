import Locator.Proofs.Config.Nearest
import Locator.Proofs.Files.Contents
import Mathlib.Data.List.Forall2

/-!
# The search for the files of a project

The search goes up from a directory to the root and ends in the first directory that holds a file of
a project. What it gives are the configurations of the files there, or what is wrong with the first
of them that has none; files further up make no difference, whatever is in them.

* `loadPlace`, `loadFile_of_find`: what a file comes to, apart from how its location is written
* `mapM_eq_ok_iff`, `mapM_eq_error_iff`: reading files one after the other
* `discover_of_nearest`, `discover_of_nearest_none`: where the search ends
* `discover_nearest`: what the search from a directory comes to
-/

namespace Locator.Config

open Files (FileSystem Place)
open Files.FileSystem (IsName placeOf)

variable {files other : FileSystem} {place : Place} {location directory : String}

/-! ## Reading a file -/

/-- Why a file has no configuration. -/
inductive Trouble where
  | unreadable (cause : IoError)
  | malformed
  deriving DecidableEq, Repr

/-- The trouble as an error about a location. -/
def Trouble.toError (location : String) : Trouble → Error
  | unreadable cause => .invalidPath location (.unreadable cause)
  | malformed => .validation location .malformedYaml

/-- The content of the file at a place as text. -/
def placeText (files : FileSystem) (place : Place) : Except IoError String := do
  let content ← files.readPlace place
  match Bytes.toString? content with
  | some text => .ok text
  | none => .error .notUtf8

/-- The configuration of the file at a place: its content has to be text, and the text has to
describe a configuration. -/
def loadPlace (files : FileSystem) (place : Place) : Except Trouble Config :=
  match placeText files place with
  | .error cause => .error (.unreadable cause)
  | .ok text =>
    match parse? text with
    | some config => .ok config
    | none => .error .malformed

/-- What is read from a location is what is at the place that it leads to. -/
theorem loadFile_of_find {node : Files.Node} (h : files.find location = .ok (place, node)) :
    loadFile files location = (loadPlace files place).mapError (·.toError location) := by
  have htext : files.readText location = placeText files place := by
    have hopen : files.openFile location = .ok place := by
      rw [FileSystem.openFile, h]
      rfl
    rw [FileSystem.readText, hopen]
    rfl
  rw [loadFile, htext, loadPlace]
  cases placeText files place with
  | error cause => rfl
  | ok text =>
    dsimp only
    cases parse? text <;> rfl

/-! ## Reading one file after the other -/

section

variable {α β : Type} {f : α → Except Error β} {items : List α} {results : List β} {error : Error}

theorem mapM_congr {f' : α → Except Error β} (h : ∀ item ∈ items, f item = f' item) :
    items.mapM f = items.mapM f' := by
  induction items with
  | nil => rfl
  | cons item rest ih =>
    rw [List.mapM_cons, List.mapM_cons, h item List.mem_cons_self,
      ih fun other hother => h other (List.mem_cons_of_mem item hother)]

theorem mapM_eq_ok_iff :
    items.mapM f = .ok results ↔
      List.Forall₂ (fun item result => f item = .ok result) items results := by
  induction items generalizing results with
  | nil =>
    rw [List.forall₂_nil_left_iff]
    exact ⟨fun h => (Except.ok.inj h).symm, fun h => congrArg Except.ok h.symm⟩
  | cons item rest ih =>
    rw [List.mapM_cons, List.forall₂_cons_left_iff]
    simp only [← ih]
    -- the first error ends the loop, on both sides
    cases f item with
    | error error => exact iff_of_false (by intro h; cases h) (by rintro ⟨result, _, h, -⟩; cases h)
    | ok result =>
      cases rest.mapM f with
      | error error =>
        exact iff_of_false (by intro h; cases h) (by rintro ⟨result, _, -, h, -⟩; cases h)
      | ok others =>
        constructor
        · intro h
          exact ⟨result, others, rfl, rfl, (Except.ok.inj h).symm⟩
        · rintro ⟨_, _, hresult, hothers, rfl⟩
          obtain rfl := Except.ok.inj hresult
          obtain rfl := Except.ok.inj hothers
          rfl

/-- Relations that are the same for the items on the left. -/
theorem forall₂_congr_of_mem {one two : α → β → Prop}
    (h : ∀ item ∈ items, ∀ result, one item result ↔ two item result) :
    List.Forall₂ one items results ↔ List.Forall₂ two items results := by
  have himp {these those : α → β → Prop}
      (h : ∀ item ∈ items, ∀ result, these item result → those item result)
      (hforall : List.Forall₂ these items results) : List.Forall₂ those items results :=
    ((List.forall₂_and_left items results).2 ⟨fun _ hitem => hitem, hforall⟩).imp
      fun item result hboth => h item hboth.1 result hboth.2
  exact ⟨himp fun item hitem result => (h item hitem result).1,
    himp fun item hitem result => (h item hitem result).2⟩

theorem mapM_eq_error_iff :
    items.mapM f = .error error ↔
      ∃ earlier item later, items = earlier ++ item :: later ∧
        (∀ before ∈ earlier, ∃ result, f before = .ok result) ∧ f item = .error error := by
  have hfault : items.mapM f = .error error ↔
      (items.findSome? fun item => fault? (f item)) = some error := by
    rw [mapM_eq]
    split <;> next h => simp [h]
  have hok : ∀ item, fault? (f item) = none ↔ ∃ result, f item = .ok result := by
    intro item
    cases f item <;> simp [fault?]
  have herror : ∀ item, fault? (f item) = some error ↔ f item = .error error := by
    intro item
    cases f item <;> simp [fault?]
  rw [hfault, List.findSome?_eq_some_iff]
  simp only [hok, herror]
  constructor
  · rintro ⟨earlier, item, later, hitems, hitem, hearlier⟩
    exact ⟨earlier, item, later, hitems, hearlier, hitem⟩
  · rintro ⟨earlier, item, later, hitems, hearlier, hitem⟩
    exact ⟨earlier, item, later, hitems, hitem, hearlier⟩

end

/-! ## The files of a directory -/

/-- The names of the files that a project may have, and their precedence. -/
def projectFiles : List (String × Nat) :=
  [(projectFile, 2), (localFile, 3)]

/-- The files of a project that there are in a directory. -/
def found (files : FileSystem) (directory : String) : List (String × Nat) :=
  projectFiles.filter fun file => files.exists? (within directory file.1)

theorem isName_of_mem_projectFiles {file : String × Nat} (h : file ∈ projectFiles) :
    IsName file.1 := by
  obtain rfl | rfl : file = (projectFile, 2) ∨ file = (localFile, 3) := by
    simpa [projectFiles] using h
  · exact ⟨⟨by decide, by decide⟩, by decide, by decide, by decide⟩
  · exact ⟨⟨by decide, by decide⟩, by decide, by decide, by decide⟩

theorem present_projectCandidates (files : FileSystem) (directory : String) :
    present files (projectCandidates directory) =
      (found files directory).map fun file => (within directory file.1, file.2) := by
  rw [present, found, show projectCandidates directory =
    projectFiles.map fun file => (within directory file.1, file.2) from rfl, List.filter_map]
  rfl

/-- A file that is there is at its place below the directory. -/
theorem find_of_mem_found {file : String × Nat} (hroot : Files.isRooted directory.toList = true)
    (hup : ['.', '.'] ∉ Files.names directory.toList) (h : file ∈ found files directory) :
    ∃ node, files.find (within directory file.1) = .ok (file.1 :: placeOf directory, node) := by
  rw [found, List.mem_filter, Files.FileSystem.exists?_eq_true_iff] at h
  obtain ⟨hfile, place, node, hfind⟩ := h
  obtain ⟨-, above, hlead, habove, rfl, -⟩ :=
    (Files.FileSystem.find_within_eq_ok_iff (isName_of_mem_projectFiles hfile)).1 hfind
  obtain ⟨rfl, -, -⟩ := (Files.FileSystem.lead_eq_directory_iff hroot hup).1 ⟨hlead, habove⟩
  exact ⟨node, hfind⟩

/-! ## Where the search ends -/

/-- A file of a project gives a source: its configuration with its location and precedence. -/
def Gives (files : FileSystem) (directory : String) (file : String × Nat) (source : Source) :
    Prop :=
  source.location = within directory file.1 ∧ source.precedence = file.2 ∧
    loadPlace files (file.1 :: placeOf directory) = .ok source.config

theorem readSource_eq {file : String × Nat} (hroot : Files.isRooted directory.toList = true)
    (hup : ['.', '.'] ∉ Files.names directory.toList) (h : file ∈ found files directory) :
    readSource files (within directory file.1, file.2) =
      ((loadPlace files (file.1 :: placeOf directory)).mapError
        (·.toError (within directory file.1))).map fun config =>
          { location := within directory file.1, precedence := file.2, config } := by
  obtain ⟨node, hfind⟩ := find_of_mem_found hroot hup h
  rw [readSource, loadFile_of_find hfind]

theorem readSource_eq_ok_iff {file : String × Nat} {source : Source}
    (hroot : Files.isRooted directory.toList = true)
    (hup : ['.', '.'] ∉ Files.names directory.toList) (h : file ∈ found files directory) :
    readSource files (within directory file.1, file.2) = .ok source ↔
      Gives files directory file source := by
  rw [readSource_eq hroot hup h, Gives]
  cases loadPlace files (file.1 :: placeOf directory) with
  | error trouble => exact iff_of_false (by intro h; cases h) (by rintro ⟨-, -, h⟩; cases h)
  | ok config =>
    constructor
    · intro h
      obtain rfl := Except.ok.inj h
      exact ⟨rfl, rfl, rfl⟩
    · rintro ⟨hlocation, hprecedence, hconfig⟩
      obtain ⟨location, precedence, config'⟩ := source
      obtain rfl : location = _ := hlocation
      obtain rfl : precedence = _ := hprecedence
      obtain rfl : config = config' := Except.ok.inj hconfig
      rfl

theorem readSource_eq_error_iff {file : String × Nat} {error : Error}
    (hroot : Files.isRooted directory.toList = true)
    (hup : ['.', '.'] ∉ Files.names directory.toList) (h : file ∈ found files directory) :
    readSource files (within directory file.1, file.2) = .error error ↔
      ∃ trouble, loadPlace files (file.1 :: placeOf directory) = .error trouble ∧
        error = trouble.toError (within directory file.1) := by
  rw [readSource_eq hroot hup h]
  cases loadPlace files (file.1 :: placeOf directory) with
  | ok config => exact iff_of_false (by intro h; cases h) (by rintro ⟨trouble, h, -⟩; cases h)
  | error trouble =>
    constructor
    · intro h
      exact ⟨trouble, rfl, (Except.error.inj h).symm⟩
    · rintro ⟨other, hother, rfl⟩
      obtain rfl := Except.error.inj hother
      rfl

/-- The files of a directory give their sources in order. -/
theorem readSources_eq_ok_iff {sources : List Source}
    (hroot : Files.isRooted directory.toList = true)
    (hup : ['.', '.'] ∉ Files.names directory.toList) :
    ((found files directory).mapM fun file =>
        readSource files (within directory file.1, file.2)) = .ok sources ↔
      List.Forall₂ (Gives files directory) (found files directory) sources := by
  rw [mapM_eq_ok_iff]
  exact forall₂_congr_of_mem fun file hfile source => readSource_eq_ok_iff hroot hup hfile

/-- The first file that gives none is the trouble. -/
theorem readSources_eq_error_iff {error : Error} (hroot : Files.isRooted directory.toList = true)
    (hup : ['.', '.'] ∉ Files.names directory.toList) :
    ((found files directory).mapM fun file =>
        readSource files (within directory file.1, file.2)) = .error error ↔
      ∃ earlier file later trouble, found files directory = earlier ++ file :: later ∧
        (∀ before ∈ earlier, ∃ source, Gives files directory before source) ∧
        loadPlace files (file.1 :: placeOf directory) = .error trouble ∧
        error = trouble.toError (within directory file.1) := by
  rw [mapM_eq_error_iff]
  constructor
  · rintro ⟨earlier, file, later, hsplit, hearlier, herror⟩
    have hbefore {before : String × Nat} (h : before ∈ earlier) : before ∈ found files directory :=
      hsplit ▸ List.mem_append_left _ h
    obtain ⟨trouble, hload, rfl⟩ := (readSource_eq_error_iff hroot hup
      (hsplit ▸ List.mem_append_right _ List.mem_cons_self)).1 herror
    refine ⟨earlier, file, later, trouble, hsplit, fun before h => ?_, hload, rfl⟩
    obtain ⟨source, hsource⟩ := hearlier before h
    exact ⟨source, (readSource_eq_ok_iff hroot hup (hbefore h)).1 hsource⟩
  · rintro ⟨earlier, file, later, trouble, hsplit, hearlier, hload, rfl⟩
    have hbefore {before : String × Nat} (h : before ∈ earlier) : before ∈ found files directory :=
      hsplit ▸ List.mem_append_left _ h
    refine ⟨earlier, file, later, hsplit, fun before h => ?_, ?_⟩
    · obtain ⟨source, hsource⟩ := hearlier before h
      exact ⟨source, (readSource_eq_ok_iff hroot hup (hbefore h)).2 hsource⟩
    · exact (readSource_eq_error_iff hroot hup
        (hsplit ▸ List.mem_append_right _ List.mem_cons_self)).2 ⟨trouble, hload, rfl⟩

/-! ## What makes a difference -/

theorem loadPlace_congr (h : other.node? place = files.node? place) :
    loadPlace other place = loadPlace files place := by
  have htext : placeText other place = placeText files place := by
    rw [placeText, placeText, FileSystem.readPlace, FileSystem.readPlace, h]
  rw [loadPlace, loadPlace, htext]

/-- What is found in a directory, and what it comes to, depends on the way there and on what is at
the places of the files. -/
theorem readSource_congr (hroot : Files.isRooted directory.toList = true)
    (hup : ['.', '.'] ∉ Files.names directory.toList)
    (hway : ∀ above, above <:+ placeOf directory → other.node? above = files.node? above)
    (hfiles : ∀ file ∈ projectFiles,
      other.node? (file.1 :: placeOf directory) = files.node? (file.1 :: placeOf directory)) :
    found other directory = found files directory ∧
      ∀ file ∈ found files directory, readSource other (within directory file.1, file.2) =
        readSource files (within directory file.1, file.2) := by
  have hfind {file : String × Nat} (hfile : file ∈ projectFiles) (place : Place)
      (node : Files.Node) : other.find (within directory file.1) = .ok (place, node) ↔
        files.find (within directory file.1) = .ok (place, node) := by
    refine Files.FileSystem.find_within_congr hroot hup (isName_of_mem_projectFiles hfile) ?_
    intro above habove
    obtain rfl | hsuffix := List.suffix_cons_iff.1 habove
    · exact hfiles file hfile
    · exact hway above hsuffix
  -- the same files lead to the same places, and what is at them is the same
  constructor
  · refine List.filter_congr fun file hfile => ?_
    rw [Bool.eq_iff_iff, Files.FileSystem.exists?_eq_true_iff,
      Files.FileSystem.exists?_eq_true_iff]
    simp only [hfind hfile]
  · intro file hmem
    have hfile : file ∈ projectFiles := List.mem_of_mem_filter hmem
    obtain ⟨node, hthere⟩ := find_of_mem_found hroot hup hmem
    rw [readSource, readSource, loadFile_of_find hthere,
      loadFile_of_find ((hfind hfile _ _).2 hthere), loadPlace_congr (hfiles file hfile)]

/-! ## The directories that are searched -/

section

variable {start : String} {closer further : List String}

/-- The directories that the search from a location goes through. -/
def searched (start : String) : List String :=
  (CommandLine.selfAndAbove start.toList).map String.ofList

theorem goingUp_searched (hroot : Files.isRooted start.toList = true) :
    Files.GoingUp start.toList ((searched start).map String.toList) := by
  have htexts : (searched start).map String.toList = CommandLine.selfAndAbove start.toList := by
    rw [searched, List.map_map, String.toList_comp_ofList, List.map_id]
  rw [htexts]
  exact Files.goingUp_selfAndAbove hroot

/-- Going up, no names are added. -/
theorem rooted_of_mem_searched (hroot : Files.isRooted start.toList = true)
    (hup : ['.', '.'] ∉ Files.names start.toList) (h : directory ∈ searched start) :
    Files.isRooted directory.toList = true ∧ ['.', '.'] ∉ Files.names directory.toList ∧
      placeOf directory <:+ placeOf start := by
  have hgoing := goingUp_searched hroot
  have hmem : directory.toList ∈ (searched start).map String.toList := List.mem_map_of_mem h
  have hnames : Files.names directory.toList <+: Files.names start.toList := by
    have hinits : Files.names directory.toList ∈ (Files.names start.toList).inits.reverse :=
      hgoing.names ▸ List.mem_map_of_mem hmem
    rwa [List.mem_reverse, List.mem_inits] at hinits
  refine ⟨hgoing.rooted _ hmem, fun hdots => hup (hnames.subset hdots), ?_⟩
  exact List.reverse_suffix.2 (hnames.map String.ofList)

theorem nearest?_eq_find? (files : FileSystem) (start : String) :
    nearest? files start =
      (searched start).find? fun directory => !(found files directory).isEmpty := by
  simp only [nearest?, present_projectCandidates, List.isEmpty_map, searched]

theorem nearest?_of_split (hsearched : searched start = closer ++ directory :: further)
    (hcloser : ∀ nearer ∈ closer, found files nearer = []) (hfound : found files directory ≠ []) :
    nearest? files start = some directory := by
  have hall : ∀ nearer ∈ closer, (!(found files nearer).isEmpty) = false := by
    intro nearer hnearer
    rw [hcloser nearer hnearer]
    rfl
  have hhere : (!(found files directory).isEmpty) = true := by
    simpa using hfound
  rw [nearest?_eq_find?, hsearched, List.find?_append, List.find?_eq_none.2 (by simpa using hall),
    Option.none_or, List.find?_cons, hhere]

theorem discover_of_nearest (h : nearest? files start = some directory) :
    discover files start.toList =
      (found files directory).mapM fun file =>
        readSource files (within directory file.1, file.2) := by
  rw [discover_eq, h, Option.toList_some, List.flatMap_singleton, present_projectCandidates,
    List.mapM_map]
  rfl

theorem discover_of_nearest_none (h : nearest? files start = none) :
    discover files start.toList = .ok [] := by
  rw [discover_eq, h]
  rfl

theorem discover_of_found_nil (h : ∀ directory ∈ searched start, found files directory = []) :
    discover files start.toList = .ok [] := by
  apply discover_of_nearest_none
  rw [nearest?_eq_find?, List.find?_eq_none]
  intro directory hdirectory
  rw [h directory hdirectory]
  exact Bool.false_ne_true

/-- Only the way to the start and the files up to the directory where the search ends make a
difference. -/
theorem discover_congr (hroot : Files.isRooted start.toList = true)
    (hup : ['.', '.'] ∉ Files.names start.toList)
    (hsearched : searched start = closer ++ directory :: further)
    (hcloser : ∀ nearer ∈ closer, found files nearer = []) (hfound : found files directory ≠ [])
    (hway : ∀ above, above <:+ placeOf start → other.node? above = files.node? above)
    (hfiles : ∀ nearer ∈ closer ++ [directory], ∀ file ∈ projectFiles,
      other.node? (file.1 :: placeOf nearer) = files.node? (file.1 :: placeOf nearer)) :
    discover other start.toList = discover files start.toList := by
  have hmem {nearer : String} (h : nearer ∈ closer ++ [directory]) : nearer ∈ searched start := by
    rw [hsearched, ← List.singleton_append, ← List.append_assoc]
    exact List.mem_append_left further h
  have hsame {nearer : String} (h : nearer ∈ closer ++ [directory]) :=
    have hnearer := rooted_of_mem_searched hroot hup (hmem h)
    readSource_congr hnearer.1 hnearer.2.1
      (fun above habove => hway above (habove.trans hnearer.2.2)) (hfiles nearer h)
  obtain ⟨hhere, hread⟩ := hsame (List.mem_append_right closer (List.mem_singleton_self directory))
  -- the search ends in the same directory, as it finds the same files on its way
  have hcloser' : ∀ nearer ∈ closer, found other nearer = [] := fun nearer h =>
    (hsame (List.mem_append_left [directory] h)).1.trans (hcloser nearer h)
  rw [discover_of_nearest (nearest?_of_split hsearched hcloser hfound),
    discover_of_nearest (nearest?_of_split hsearched hcloser' (hhere ▸ hfound)), hhere]
  exact mapM_congr hread

theorem mem_found_iff {file : String × Nat} (hroot : Files.isRooted directory.toList = true)
    (hup : ['.', '.'] ∉ Files.names directory.toList) (hfile : file ∈ projectFiles) :
    file ∈ found files directory ↔
      files.Stands (placeOf directory) ∧
      (files.node? (file.1 :: placeOf directory)).isSome = true ∧
      FileSystem.checkLocation (within directory file.1) = .ok () ∧
      ∀ name ∈ placeOf directory, name.utf8ByteSize ≤ Files.maxName := by
  rw [found, List.mem_filter,
    Files.FileSystem.exists?_within_iff (isName_of_mem_projectFiles hfile)]
  have hreach {above : Place} :
      (files.lead directory = .ok above ∧ files.node? above = some .directory) ↔ _ :=
    Files.FileSystem.lead_eq_directory_iff hroot hup
  constructor
  · rintro ⟨-, hcheck, above, hlead, hnode, hthere⟩
    obtain ⟨rfl, hstands, hsizes⟩ := hreach.1 ⟨hlead, hnode⟩
    exact ⟨hstands, hthere, hcheck, hsizes⟩
  · rintro ⟨hstands, hthere, hcheck, hsizes⟩
    obtain ⟨hlead, hnode⟩ := hreach.2 ⟨rfl, hstands, hsizes⟩
    exact ⟨hfile, hcheck, _, hlead, hnode, hthere⟩

end

/-- The search from a directory that is given from the root, without steps up, goes through the
directories above it one by one, down to the root. It gives nothing when none of them holds a file
of a project; otherwise the first one that does decides. Its files are read in the order of their
precedence, the first that is no text or describes no configuration is reported, and when there is
none each file gives its configuration. What is anywhere else makes no difference: only the
directories on the way to the start, and the places of the files of a project in the directories up
to that one, count. A directory holds a file when there is something at its place, behind
directories all the way, and the system takes its location. -/
theorem discover_nearest {files : FileSystem} {start : String}
    (hroot : Files.isRooted start.toList = true)
    (hup : ['.', '.'] ∉ Files.names start.toList) :
    Files.GoingUp start.toList ((searched start).map String.toList) ∧
    (∀ directory ∈ searched start, ∀ file ∈ projectFiles,
      file ∈ found files directory ↔
        files.Stands (placeOf directory) ∧
        (files.node? (file.1 :: placeOf directory)).isSome = true ∧
        FileSystem.checkLocation (within directory file.1) = .ok () ∧
        ∀ name ∈ placeOf directory, name.utf8ByteSize ≤ Files.maxName) ∧
    ((∀ directory ∈ searched start, found files directory = []) →
      discover files start.toList = .ok []) ∧
    ∀ closer directory further, searched start = closer ++ directory :: further →
      (∀ nearer ∈ closer, found files nearer = []) → found files directory ≠ [] →
      (∀ sources, discover files start.toList = .ok sources ↔
        List.Forall₂ (Gives files directory) (found files directory) sources) ∧
      (∀ error, discover files start.toList = .error error ↔
        ∃ earlier file later trouble, found files directory = earlier ++ file :: later ∧
          (∀ before ∈ earlier, ∃ source, Gives files directory before source) ∧
          loadPlace files (file.1 :: placeOf directory) = .error trouble ∧
          error = trouble.toError (within directory file.1)) ∧
      ∀ other : FileSystem,
        (∀ above, above <:+ placeOf start → other.node? above = files.node? above) →
        (∀ nearer ∈ closer ++ [directory], ∀ file ∈ projectFiles,
          other.node? (file.1 :: placeOf nearer) = files.node? (file.1 :: placeOf nearer)) →
        discover other start.toList = discover files start.toList := by
  refine ⟨goingUp_searched hroot, ?_, discover_of_found_nil, ?_⟩
  · intro directory hdirectory file hfile
    obtain ⟨hrooted, hnoup, -⟩ := rooted_of_mem_searched hroot hup hdirectory
    exact mem_found_iff hrooted hnoup hfile
  intro closer directory further hsearched hcloser hfound
  obtain ⟨hrooted, hnoup, -⟩ := rooted_of_mem_searched hroot hup
    (hsearched ▸ List.mem_append_right closer List.mem_cons_self)
  have hdiscover := discover_of_nearest (nearest?_of_split hsearched hcloser hfound)
  refine ⟨?_, ?_, ?_⟩
  · intro sources
    rw [hdiscover]
    exact readSources_eq_ok_iff hrooted hnoup
  · intro error
    rw [hdiscover]
    exact readSources_eq_error_iff hrooted hnoup
  · intro other hway hfiles
    exact discover_congr hroot hup hsearched hcloser hfound hway hfiles

/-- A disk on which a directory has a file of its own for a project, below one whose file cannot be
read. -/
def nestedFiles : FileSystem where
  entries := [
    (["a"], .directory),
    (["respath.yaml", "a"], .directory),
    (["b", "a"], .directory),
    (["respath.local.yaml", "b", "a"], .file (Bytes.ofString "cache:\n  ttl_seconds: 2\n")),
    (["c", "b", "a"], .directory)]

/-- The nearest file is read, and the one further up makes no difference. -/
theorem discover_nearest_below_unreadable :
    Files.isRooted "/a//b/c".toList = true ∧ ['.', '.'] ∉ Files.names "/a//b/c".toList ∧
      discover nestedFiles "/a//b/c".toList =
        .ok [{
          location := "/a//b/respath.local.yaml"
          precedence := 3
          config := { cache := some { ttlSeconds := some 2 } } }] := by
  have hroot : Files.isRooted "/a//b/c".toList = true := by decide +kernel
  have hup : ['.', '.'] ∉ Files.names "/a//b/c".toList := by decide +kernel
  have hsearched : searched "/a//b/c" = ["/a//b/c"] ++ "/a//b" :: ["/a", "/"] := by
    decide +kernel
  have hfound : found nestedFiles "/a//b/c" = [] ∧
      found nestedFiles "/a//b" = [(localFile, 3)] := by
    simp only [found, FileSystem.exists?, FileSystem.find, FileSystem.walk,
      FileSystem.checkLocation_eq]
    decide +kernel
  have hload : loadPlace nestedFiles (localFile :: placeOf "/a//b") =
      .ok { cache := some { ttlSeconds := some 2 } } := by
    decide +kernel
  obtain ⟨-, -, -, hends⟩ := @discover_nearest nestedFiles "/a//b/c" hroot hup
  obtain ⟨hok, -, -⟩ := hends _ _ _ hsearched (by simpa using hfound.1) (by simp [hfound.2])
  refine ⟨hroot, hup, (hok _).2 ?_⟩
  rw [hfound.2]
  exact .cons ⟨by decide +kernel, rfl, hload⟩ .nil

end Locator.Config
