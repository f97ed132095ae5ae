import Locator.Files.System
import Locator.Proofs.Path.Plain

/-!
# Absolute forms of locations

The absolute form of a location has the names of the working directory in front, and those of the
location without the parts that name nothing. Walking it leads through the working directory to
the same place, as long as the system takes a location of that length.

* `names_absolute`: the names in an absolute form
* `endsIdle_absolute`: it does not ask for a directory where the location does not
* `walk_absolute`, `find_absolute`: what it leads to
-/

namespace Locator.Files

open Text

variable {location name directory front back start : List Char} {parts : List (List Char)}
  {c : Char}

/-! ## Names in a location -/

/-- A part that names something. -/
def IsPart (part : List Char) : Prop :=
  '/' ∉ part ∧ isIdle part = false

theorem isPart_of_mem_names (h : name ∈ names location) : IsPart name := by
  rw [names, List.mem_filter, Bool.not_eq_true'] at h
  exact ⟨not_mem_of_mem_split h.1, h.2⟩

theorem names_append_slash (front back : List Char) :
    names (front ++ '/' :: back) = names front ++ names back := by
  rw [names, names, names, split_append, List.filter_append]

theorem names_of_isPart (h : IsPart name) : names name = [name] := by
  rw [names, split_of_not_mem h.1, List.filter_cons_of_pos (by rw [h.2]; rfl), List.filter_nil]

theorem names_nil : names [] = [] := rfl

theorem not_isRooted_of_isPart (h : IsPart name) : isRooted name = false := by
  rw [isRooted, beq_eq_false_iff_ne]
  intro hhead
  exact h.1 (List.mem_of_mem_head? hhead)

theorem mem_intercalate {part : List Char} (h : part ∈ parts) (hc : c ∈ part) :
    c ∈ ['/'].intercalate parts := by
  induction parts with
  | nil => cases h
  | cons first rest ih =>
    cases rest with
    | nil => rwa [List.intercalate_singleton, ← List.mem_singleton.1 h]
    | cons next others =>
      rw [List.intercalate_cons_cons, List.mem_append, List.mem_append]
      obtain rfl | hrest := List.mem_cons.1 h
      · exact Or.inl (Or.inl hc)
      · exact Or.inr (ih hrest)

/-- What stands in a name stands in the location. -/
theorem mem_of_mem_names (h : name ∈ names location) (hc : c ∈ name) : c ∈ location := by
  rw [← intercalate_split '/' location]
  exact mem_intercalate (List.mem_filter.1 h).1 hc

/-! ## Joining -/

/-- Joining puts a separator in between where there is none. -/
theorem join_cases (directory : List Char) (hname : isRooted name = false) :
    join directory name = directory ++ '/' :: name ∨
      join directory name = directory ++ name ∧
        (directory = [] ∨ ∃ before, directory = before ++ ['/']) := by
  rw [join, hname, if_neg Bool.false_ne_true]
  split
  · next h =>
    right
    refine ⟨rfl, ?_⟩
    rw [Bool.or_eq_true, List.isEmpty_iff, beq_iff_eq] at h
    obtain hnil | hlast := h
    · exact Or.inl hnil
    · exact Or.inr (List.getLast?_eq_some_iff.1 hlast)
  · exact Or.inl rfl

theorem names_join (hname : isRooted name = false) :
    names (join directory name) = names directory ++ names name := by
  obtain h | ⟨h, rfl | ⟨before, rfl⟩⟩ := join_cases directory hname
  · rw [h, names_append_slash]
  · rw [h, List.nil_append, names_nil, List.nil_append]
  · rw [h, List.append_assoc, List.singleton_append, names_append_slash, names_append_slash,
      names_nil, List.append_nil]

theorem names_foldl_join (h : ∀ part ∈ parts, IsPart part) :
    names (parts.foldl join start) = names start ++ parts := by
  induction parts generalizing start with
  | nil => rw [List.foldl_nil, List.append_nil]
  | cons part rest ih =>
    have hpart : IsPart part := h part List.mem_cons_self
    rw [List.foldl_cons, ih fun other hother => h other (List.mem_cons_of_mem part hother),
      names_join (not_isRooted_of_isPart hpart), names_of_isPart hpart, List.append_assoc,
      List.singleton_append]

/-- Nothing but separators comes in between. -/
theorem mem_foldl_join (hparts : ∀ part ∈ parts, IsPart part) (hc : c ∈ parts.foldl join start) :
    c ∈ start ∨ c = '/' ∨ ∃ part ∈ parts, c ∈ part := by
  induction parts generalizing start with
  | nil => exact Or.inl hc
  | cons part rest ih =>
    have hpart : IsPart part := hparts part List.mem_cons_self
    obtain hjoin | hslash | ⟨other, hother, hmem⟩ :=
      ih (fun other hother => hparts other (List.mem_cons_of_mem part hother)) hc
    · have hboth : c ∈ start ∨ c = '/' ∨ c ∈ part := by
        obtain h | ⟨h, -⟩ := join_cases start (not_isRooted_of_isPart hpart)
        · rwa [h, List.mem_append, List.mem_cons] at hjoin
        · rw [h, List.mem_append] at hjoin
          exact hjoin.imp_right Or.inr
      exact hboth.imp_right fun h => h.imp_right fun hmem => ⟨part, List.mem_cons_self, hmem⟩
    · exact Or.inr (Or.inl hslash)
    · exact Or.inr (Or.inr ⟨other, List.mem_cons_of_mem part hother, hmem⟩)

theorem isRooted_foldl_join (hstart : isRooted start = true)
    (hparts : ∀ part ∈ parts, IsPart part) : isRooted (parts.foldl join start) = true := by
  induction parts generalizing start with
  | nil => exact hstart
  | cons part rest ih =>
    have hpart : IsPart part := hparts part List.mem_cons_self
    refine ih ?_ fun other hother => hparts other (List.mem_cons_of_mem part hother)
    rw [isRooted, beq_iff_eq, List.head?_eq_some_iff] at hstart
    obtain ⟨tail, rfl⟩ := hstart
    obtain h | ⟨h, -⟩ := join_cases ('/' :: tail) (not_isRooted_of_isPart hpart)
    · rw [h]
      rfl
    · rw [h]
      rfl

/-- The last name that was joined is the last part. -/
theorem getLast?_split_foldl_join (hparts : ∀ part ∈ parts, IsPart part)
    (hlast : parts.getLast? = some name) :
    (split '/' (parts.foldl join start)).getLast? = some name := by
  obtain ⟨init, rfl⟩ := List.getLast?_eq_some_iff.1 hlast
  have hname : IsPart name := hparts name (List.mem_append_right _ (List.mem_singleton_self name))
  rw [List.foldl_append, List.foldl_cons, List.foldl_nil]
  obtain h | ⟨h, hdir⟩ := join_cases (init.foldl join start) (not_isRooted_of_isPart hname)
  · rw [h, split_append, split_of_not_mem hname.1, List.getLast?_concat]
  · obtain hnil | ⟨before, hbefore⟩ := hdir
    · rw [h, hnil, List.nil_append, split_of_not_mem hname.1]
      rfl
    · rw [h, hbefore, List.append_assoc, List.singleton_append, split_append,
        split_of_not_mem hname.1, List.getLast?_concat]

/-! ## Absolute forms -/

/-- What an absolute form begins with. -/
def anchorOf (workingDirectory location : List Char) : List Char :=
  if isRooted location then
    if ['/', '/'].isPrefixOf location && !(['/', '/', '/'].isPrefixOf location) then ['/', '/']
    else ['/']
  else workingDirectory

variable {workingDirectory : List Char}

theorem absolute_eq (workingDirectory location : List Char) :
    absolute workingDirectory location =
      if location.getLast? = some '/' then
        join ((names location).foldl join (anchorOf workingDirectory location)) []
      else (names location).foldl join (anchorOf workingDirectory location) := by
  rw [absolute, anchorOf]
  by_cases h : location.getLast? = some '/' <;> simp [h]

theorem isRooted_anchorOf (h : isRooted workingDirectory = true) (location : List Char) :
    isRooted (anchorOf workingDirectory location) = true := by
  rw [anchorOf]
  split
  · split <;> rfl
  · exact h

theorem names_anchorOf (workingDirectory location : List Char) :
    names (anchorOf workingDirectory location) =
      if isRooted location then [] else names workingDirectory := by
  rw [anchorOf]
  split
  · split <;> decide
  · rfl

theorem isRooted_join_nil (h : isRooted directory = true) :
    isRooted (join directory []) = true := by
  rw [isRooted, beq_iff_eq, List.head?_eq_some_iff] at h
  obtain ⟨tail, rfl⟩ := h
  obtain h | ⟨h, -⟩ := join_cases ('/' :: tail) (show isRooted [] = false from rfl)
  · rw [h]
    rfl
  · rw [h]
    rfl

theorem isRooted_absolute (h : isRooted workingDirectory = true) (location : List Char) :
    isRooted (absolute workingDirectory location) = true := by
  have hfull := isRooted_foldl_join (isRooted_anchorOf h location)
    fun part (hpart : part ∈ names location) => isPart_of_mem_names hpart
  rw [absolute_eq]
  split
  · exact isRooted_join_nil hfull
  · exact hfull

/-- The names in an absolute form are those of the working directory, unless the location starts at
the root, and those of the location. -/
theorem names_absolute (workingDirectory location : List Char) :
    names (absolute workingDirectory location) =
      (if isRooted location then [] else names workingDirectory) ++ names location := by
  have hfull : names ((names location).foldl join (anchorOf workingDirectory location)) =
      (if isRooted location then [] else names workingDirectory) ++ names location := by
    rw [names_foldl_join fun part hpart => isPart_of_mem_names hpart, names_anchorOf]
  rw [absolute_eq]
  split
  · rw [names_join rfl, names_nil, List.append_nil, hfull]
  · exact hfull

theorem mem_absolute (h : c ∈ absolute workingDirectory location) :
    c ∈ workingDirectory ∨ c = '/' ∨ c ∈ location := by
  -- the anchor, the names joined to it, and the separator at the end, one after the other
  have hanchor : c ∈ anchorOf workingDirectory location → c ∈ workingDirectory ∨ c = '/' := by
    rw [anchorOf]
    split
    · split
      · intro hc
        simp at hc
        exact Or.inr hc
      · intro hc
        exact Or.inr (List.mem_singleton.1 hc)
    · exact Or.inl
  have hfull : c ∈ (names location).foldl join (anchorOf workingDirectory location) →
      c ∈ workingDirectory ∨ c = '/' ∨ c ∈ location := by
    intro hc
    obtain hstart | hslash | ⟨part, hpart, hmem⟩ :=
      mem_foldl_join (fun part hpart => isPart_of_mem_names hpart) hc
    · exact (hanchor hstart).imp_right Or.inl
    · exact Or.inr (Or.inl hslash)
    · exact Or.inr (Or.inr (mem_of_mem_names hpart hmem))
  rw [absolute_eq] at h
  split at h
  · obtain heq | ⟨heq, -⟩ := join_cases
      ((names location).foldl join (anchorOf workingDirectory location))
      (show isRooted [] = false from rfl)
    · rw [heq, List.mem_append, List.mem_singleton] at h
      obtain h | h := h
      · exact hfull h
      · exact Or.inr (Or.inl h)
    · rw [heq, List.append_nil] at h
      exact hfull h
  · exact hfull h

/-! ## Locations of directories -/

theorem isIdle_nil : isIdle [] = true := rfl

/-- A location that asks for no directory ends in a name. -/
theorem getLast?_names (h : FileSystem.endsIdle location = false) :
    (names location).getLast? = (split '/' location).getLast? ∧
      location.getLast? ≠ some '/' := by
  obtain ⟨dirs, last, hparts⟩ := exists_split_eq '/' location
  have hlast : isIdle last = false := by
    rw [FileSystem.endsIdle, hparts, List.getLast?_concat] at h
    exact h
  constructor
  · rw [names, hparts, List.filter_append, List.filter_cons_of_pos (by rw [hlast]; rfl),
      List.filter_nil, List.getLast?_concat, List.getLast?_concat]
  · intro hslash
    obtain ⟨before, rfl⟩ := List.getLast?_eq_some_iff.1 hslash
    have hend : split '/' (before ++ ['/']) = split '/' before ++ [[]] := by
      rw [split_append]
      rfl
    obtain ⟨-, hnil⟩ := List.append_inj' (hend.symm.trans hparts) rfl
    rw [← (List.cons.inj hnil).1, isIdle_nil] at hlast
    cases hlast

/-- The absolute form asks for a directory only where the location does. -/
theorem endsIdle_absolute (workingDirectory : List Char)
    (h : FileSystem.endsIdle location = false) :
    FileSystem.endsIdle (absolute workingDirectory location) = false := by
  obtain ⟨hnames, hslash⟩ := getLast?_names h
  obtain ⟨dirs, last, hparts⟩ := exists_split_eq '/' location
  rw [hparts, List.getLast?_concat] at hnames
  rw [FileSystem.endsIdle, hparts, List.getLast?_concat] at h
  have hfull : (split '/' (absolute workingDirectory location)).getLast? = some last := by
    rw [absolute_eq, if_neg hslash]
    exact getLast?_split_foldl_join (fun part hpart => isPart_of_mem_names hpart) hnames
  rw [FileSystem.endsIdle, hfull]
  exact h

namespace FileSystem

/-! ## The working directory -/

/-- A text that something on disk can be called. -/
structure IsName (name : String) : Prop where
  part : IsPart name.toList
  ne_up : name ≠ ".."
  nul : '\x00' ∉ name.toList
  size_le : name.utf8ByteSize ≤ maxName

/-- The working directory is there, with all the directories on the way to it. -/
structure HasWorkingDirectory (files : FileSystem) : Prop where
  names : ∀ name ∈ files.workingDirectory, IsName name
  there : ∀ place, place <:+ files.workingDirectory → files.node? place = some .directory

variable {files : FileSystem} {place : Place} {node : Node} {location : String}

theorem names_locationOf (h : ∀ name ∈ place, IsName name) :
    names (locationOf place).toList = place.reverse.map String.toList := by
  have htext : (locationOf place).toList = '/' :: ("/".intercalate place.reverse).toList := by
    rw [locationOf, String.toList_append]
    rfl
  have hempty : names ('/' :: ("/".intercalate place.reverse).toList) =
      names ("/".intercalate place.reverse).toList := names_append_slash [] _
  rw [htext, hempty]
  by_cases hnil : place = []
  · rw [hnil]
    rfl
  · have hslash : ∀ name ∈ place.reverse, '/' ∉ name.toList := fun name hname =>
      (h name (List.mem_reverse.1 hname)).part.1
    rw [names, Path.split_intercalate_segments (by simpa using hnil) hslash, List.filter_eq_self]
    intro part hpart
    obtain ⟨name, hname, rfl⟩ := List.mem_map.1 hpart
    rw [(h name (List.mem_reverse.1 hname)).part.2]
    rfl

/-- Walking down the names of a place leads there when there are directories all the way. -/
theorem foldlM_stepFrom_place (hnames : ∀ name ∈ place, IsName name)
    (hthere : ∀ above, above <:+ place → files.node? above = some .directory) :
    place.reverse.foldlM files.stepFrom [] = .ok place := by
  induction place with
  | nil => rfl
  | cons name above ih =>
    have hname : IsName name := hnames name List.mem_cons_self
    have habove : above.reverse.foldlM files.stepFrom [] = .ok above :=
      ih (fun other hother => hnames other (List.mem_cons_of_mem name hother))
        fun further hfurther => hthere further (hfurther.trans (List.suffix_cons name above))
    have hstep : files.stepFrom above name = .ok (name :: above) := by
      rw [stepFrom, hthere above (List.suffix_cons name above)]
      simp only [if_neg hname.ne_up, if_neg (Nat.not_lt.2 hname.size_le)]
    rw [List.reverse_cons, List.foldlM_append, habove]
    show (do let here ← files.stepFrom above name; [].foldlM files.stepFrom here) = _
    rw [hstep]
    rfl

/-! ## Where absolute forms lead -/

theorem checkLocation_eq_ok_iff :
    checkLocation location = .ok () ↔
      '\x00' ∉ location.toList ∧ location ≠ "" ∧ location.utf8ByteSize ≤ maxLocation := by
  have hempty : location.isEmpty = true ↔ location = "" := String.isEmpty_iff
  have hnul : location.contains '\x00' = true ↔ '\x00' ∈ location.toList := by
    rw [String.contains_char_eq, decide_eq_true_iff]
  rw [checkLocation]
  split
  · next h => simp [hnul.1 h]
  · next h =>
    split
    · next h' => simp [hempty.1 h']
    · next h' =>
      split
      · next h'' => simp [Nat.not_le.2 h'']
      · next h'' =>
        simp only [true_iff]
        exact ⟨fun hmem => h (hnul.2 hmem), fun heq => h' (hempty.2 heq), Nat.not_lt.1 h''⟩

/-- The same by what the text of a location consists of. -/
theorem checkLocation_eq (location : String) :
    checkLocation location =
      if '\x00' ∈ location.toList then .error .nulInName
      else if location = "" then .error .notFound
      else if location.utf8ByteSize > maxLocation then .error .nameTooLong
      else .ok () := by
  simp only [checkLocation, String.contains_char_eq, decide_eq_true_eq, String.isEmpty_iff]

/-- The names on the way from the root, and from where a location starts. -/
theorem walk_of_checkLocation (h : checkLocation location = .ok ()) :
    files.walk location = ((names location.toList).map String.ofList).foldlM files.stepFrom
      (if isRooted location.toList then [] else files.workingDirectory) := by
  rw [walk, h]
  rfl

theorem isRooted_locationOf (place : Place) : isRooted (locationOf place).toList = true := by
  rw [locationOf, String.toList_append]
  rfl

theorem toList_absolute (files : FileSystem) (location : String) :
    (files.absolute location).toList =
      Files.absolute (locationOf files.workingDirectory).toList location.toList :=
  String.toList_ofList

theorem nul_not_mem_absolute (here : files.HasWorkingDirectory) (h : '\x00' ∉ location.toList) :
    '\x00' ∉ (files.absolute location).toList := by
  rw [toList_absolute]
  intro hmem
  obtain hdir | hslash | hloc := mem_absolute hmem
  · obtain ⟨part, hpart, hnul⟩ := exists_mem_split (show '\x00' ≠ '/' by decide) hdir
    -- a part with something in it other than a dot is one of the names
    have hidle : isIdle part = false := by
      rw [isIdle, Bool.or_eq_false_iff, beq_eq_false_iff_ne, beq_eq_false_iff_ne]
      constructor
      · rintro rfl
        cases hnul
      · rintro rfl
        exact absurd (List.mem_singleton.1 hnul) (by decide)
    have hname : part ∈ names (locationOf files.workingDirectory).toList := by
      rw [names, List.mem_filter, hidle]
      exact ⟨hpart, rfl⟩
    rw [names_locationOf here.names] at hname
    obtain ⟨name, hmem, rfl⟩ := List.mem_map.1 hname
    exact (here.names name (List.mem_reverse.1 hmem)).nul hnul
  · exact absurd hslash (by decide)
  · exact h hloc

theorem absolute_ne_empty (files : FileSystem) (location : String) :
    files.absolute location ≠ "" := by
  intro hempty
  have hroot := isRooted_absolute (isRooted_locationOf files.workingDirectory) location.toList
  rw [← toList_absolute, hempty] at hroot
  cases hroot

/-- The absolute form leads where the location leads. -/
theorem walk_absolute (here : files.HasWorkingDirectory)
    (h : checkLocation location = .ok ())
    (hsize : (files.absolute location).utf8ByteSize ≤ maxLocation) :
    files.walk (files.absolute location) = files.walk location := by
  have hcheck : checkLocation (files.absolute location) = .ok () :=
    checkLocation_eq_ok_iff.2 ⟨nul_not_mem_absolute here (checkLocation_eq_ok_iff.1 h).1,
      absolute_ne_empty files location, hsize⟩
  have hroot := isRooted_absolute (isRooted_locationOf files.workingDirectory) location.toList
  have hcwd : ((files.workingDirectory.reverse.map String.toList).map String.ofList).foldlM
      files.stepFrom [] = .ok files.workingDirectory := by
    rw [List.map_map, String.ofList_comp_toList, List.map_id]
    exact foldlM_stepFrom_place here.names here.there
  rw [walk_of_checkLocation hcheck, walk_of_checkLocation h, toList_absolute, hroot, if_pos rfl,
    names_absolute, names_locationOf here.names]
  split
  · rw [List.nil_append]
  · rw [List.map_append, List.foldlM_append, hcwd]
    rfl

theorem find_eq_ok_iff :
    files.find location = .ok (place, node) ↔
      files.walk location = .ok place ∧ files.node? place = some node ∧
        (endsIdle location.toList = true → node = .directory) := by
  rw [find]
  -- a text that ends idle has to lead to a directory
  cases files.walk location with
  | error cause => simp [bind, Except.bind]
  | ok there =>
    simp only [bind, Except.bind, Except.ok.injEq]
    constructor
    · intro h
      split at h
      · cases h
      · next content hnode =>
        split at h
        · cases h
        · next hend =>
          obtain ⟨rfl, rfl⟩ := Prod.mk.inj (Except.ok.inj h)
          exact ⟨rfl, hnode, fun htrue => absurd htrue hend⟩
      · next hnode =>
        obtain ⟨rfl, rfl⟩ := Prod.mk.inj (Except.ok.inj h)
        exact ⟨rfl, hnode, fun _ => rfl⟩
    · rintro ⟨rfl, hnode, hend⟩
      rw [hnode]
      cases node with
      | directory => rfl
      | file content =>
        have hfile : endsIdle location.toList = false := by
          rw [← Bool.not_eq_true]
          intro htrue
          cases hend htrue
        rw [hfile]
        rfl

theorem exists?_eq_true_iff :
    files.exists? location = true ↔ ∃ place node, files.find location = .ok (place, node) := by
  rw [exists?]
  cases files.find location with
  | error cause => simp [Except.toOption]
  | ok found => exact iff_of_true rfl ⟨found.1, found.2, rfl⟩

/-- What is there under a location is there under its absolute form, unless that is too long. -/
theorem find_absolute (here : files.HasWorkingDirectory)
    (h : files.find location = .ok (place, node)) :
    files.find (files.absolute location) =
      if (files.absolute location).utf8ByteSize ≤ maxLocation then .ok (place, node)
      else .error .nameTooLong := by
  obtain ⟨hwalk, hnode, hidle⟩ := find_eq_ok_iff.1 h
  have hcheck : checkLocation location = .ok () := by
    cases hresult : checkLocation location with
    | ok _ => rfl
    | error cause =>
      rw [walk, hresult] at hwalk
      cases hwalk
  -- the absolute form is a longer text, which the system may refuse
  split
  · next hsize =>
    refine find_eq_ok_iff.2 ⟨(walk_absolute here hcheck hsize).trans hwalk, hnode, fun hend => ?_⟩
    apply hidle
    cases hloc : endsIdle location.toList with
    | true => rfl
    | false =>
      rw [toList_absolute, endsIdle_absolute _ hloc] at hend
      cases hend
  · next hsize =>
    have hlong : checkLocation (files.absolute location) = .error .nameTooLong := by
      have hnul := nul_not_mem_absolute here (checkLocation_eq_ok_iff.1 hcheck).1
      rw [checkLocation, String.contains_char_eq, if_neg (by simpa using hnul),
        if_neg (by simpa using absolute_ne_empty files location), if_pos (Nat.not_le.1 hsize)]
    rw [find, walk, hlong]
    rfl

end FileSystem

end Locator.Files
