import Locator.Config.Discovery
import Locator.Proofs.Files.Absolute
import Mathlib.Data.List.Induction
import Mathlib.Data.List.Infix

/-!
# What is in a directory

Something that a directory is asked for by name is found when the directory can be reached, when
there is something at the place below it, and when the system takes a location of that length. How
the location of the directory is written makes no other difference. Going down without going up in
between, a directory is reached through the directories on the way and through nothing else.

* `lead`: where the names in a location lead, whatever its length
* `find_within_eq_ok_iff`: finding something in a directory
* `lead_eq_directory_iff`: reaching a directory from the root
* `directory_of_prefix`, `tails_eq_trail_append`: the places on the way to a directory
* `find_within_congr`: what finding something depends on
-/

namespace Locator.Files

open Text

namespace FileSystem

variable {files other : FileSystem} {place here above : Place} {node : Node}
  {directory location name : String} {names : List String}

/-! ## Reaching a directory -/

/-- The names in a location. -/
def steps (location : String) : List String :=
  (Files.names location.toList).map String.ofList

/-- Where the names in a location lead. -/
def lead (files : FileSystem) (location : String) : Except IoError Place :=
  (steps location).foldlM files.stepFrom
    (if isRooted location.toList then [] else files.workingDirectory)

theorem walk_eq_lead (h : checkLocation location = .ok ()) :
    files.walk location = files.lead location :=
  walk_of_checkLocation h

/-- The place that the names in a location stand for, seen from the root. -/
def placeOf (location : String) : Place :=
  (steps location).reverse

/-- A directory is there, with all the directories on the way to it. -/
def Stands (files : FileSystem) (place : Place) : Prop :=
  ∀ above, above <:+ place → files.node? above = some .directory

theorem stepFrom_eq_ok_iff (hup : name ≠ "..") :
    files.stepFrom here name = .ok place ↔
      files.node? here = some .directory ∧ name.utf8ByteSize ≤ maxName ∧ place = name :: here := by
  rw [stepFrom]
  split
  · next h => simp [h]
  · next h => simp [h]
  · next h =>
    rw [if_neg hup]
    split
    · next hsize => simp [h, Nat.not_le.2 hsize]
    · next hsize => simp [h, Nat.not_lt.1 hsize, eq_comm]

/-- Going down some names leads to a directory when there are directories all the way. -/
theorem foldlM_stepFrom_iff (hup : ".." ∉ names) :
    (names.foldlM files.stepFrom here = .ok place ∧ files.node? place = some .directory) ↔
      place = names.reverse ++ here ∧ (∀ name ∈ names, name.utf8ByteSize ≤ maxName) ∧
        ∀ above, here <:+ above → above <:+ place → files.node? above = some .directory := by
  induction names generalizing here with
  | nil =>
    constructor
    · rintro ⟨hplace, hnode⟩
      have hhere : place = here := (Except.ok.inj hplace).symm
      subst hhere
      refine ⟨rfl, fun name hname => (nomatch hname), fun above hbelow habove => ?_⟩
      rwa [habove.eq_of_length_le hbelow.length_le]
    · rintro ⟨hplace, -, hthere⟩
      have hhere : place = here := hplace
      subst hhere
      exact ⟨rfl, hthere place List.suffix_rfl List.suffix_rfl⟩
  | cons name rest ih =>
    have hname : name ≠ ".." := fun h => hup (h ▸ List.mem_cons_self)
    have hrest : ".." ∉ rest := fun h => hup (List.mem_cons_of_mem name h)
    have hplace : (name :: rest).reverse ++ here = rest.reverse ++ name :: here := by simp
    have hstep : (name :: rest).foldlM files.stepFrom here = .ok place ↔
        files.stepFrom here name = .ok (name :: here) ∧
          rest.foldlM files.stepFrom (name :: here) = .ok place := by
      rw [List.foldlM_cons]
      cases hresult : files.stepFrom here name with
      | error cause => exact iff_of_false (by intro h; cases h) (by intro h; cases h.1)
      | ok there =>
        obtain ⟨-, -, rfl⟩ := (stepFrom_eq_ok_iff hname).1 hresult
        exact (and_iff_right rfl).symm
    rw [hstep, and_assoc, ih hrest, hplace, stepFrom_eq_ok_iff hname]
    constructor
    · rintro ⟨⟨hhere, hsize, -⟩, rfl, hsizes, hthere⟩
      refine ⟨rfl, List.forall_mem_cons.2 ⟨hsize, hsizes⟩, fun above hbelow habove => ?_⟩
      -- what is not below the next name is where the way starts
      obtain hnext | hnext := List.suffix_or_suffix_of_suffix habove
        (List.suffix_append rest.reverse (name :: here))
      · obtain rfl | hsuffix := List.suffix_cons_iff.1 hnext
        · exact hthere _ List.suffix_rfl habove
        · rwa [hsuffix.eq_of_length_le hbelow.length_le]
      · exact hthere above hnext habove
    · rintro ⟨rfl, hsizes, hthere⟩
      obtain ⟨hsize, hsizes⟩ := List.forall_mem_cons.1 hsizes
      have hsuffix : name :: here <:+ rest.reverse ++ name :: here := List.suffix_append _ _
      refine ⟨⟨?_, hsize, rfl⟩, rfl, hsizes, fun above hbelow => ?_⟩
      · exact hthere here List.suffix_rfl ((List.suffix_cons name here).trans hsuffix)
      · exact hthere above ((List.suffix_cons name here).trans hbelow)

/-- From the root, a directory is reached that stands at the place of its location. -/
theorem lead_eq_directory_iff (hroot : isRooted location.toList = true)
    (hup : ['.', '.'] ∉ Files.names location.toList) :
    (files.lead location = .ok place ∧ files.node? place = some .directory) ↔
      place = placeOf location ∧ files.Stands place ∧
        ∀ name ∈ placeOf location, name.utf8ByteSize ≤ maxName := by
  have hnames : ".." ∉ steps location := by
    rw [steps, List.mem_map]
    rintro ⟨name, hname, hdots⟩
    have hname' : name = ['.', '.'] := by
      rw [← String.toList_ofList (l := name), hdots]
      rfl
    exact hup (hname' ▸ hname)
  rw [lead, hroot, if_pos rfl, foldlM_stepFrom_iff hnames, List.append_nil, placeOf]
  simp only [List.nil_suffix, forall_const, List.mem_reverse, Stands]
  rw [and_congr_right_iff]
  intro _
  exact and_comm

/-! ## Going down and up -/

/-- Where one step by a name leads from a directory. -/
def descend (here : Place) (name : String) : Place :=
  if name = ".." then here.tail else name :: here

/-- The places that the starts of some names lead to, the one of all the names first. -/
def trail (here : Place) (names : List String) : List Place :=
  names.inits.reverse.map (·.foldl descend here)

theorem eq_descend_of_stepFrom (h : files.stepFrom here name = .ok place) :
    files.node? here = some .directory ∧ place = descend here name := by
  rw [stepFrom] at h
  split at h
  · cases h
  · cases h
  · next hnode =>
    refine ⟨hnode, ?_⟩
    rw [descend]
    split at h
    · next hup =>
      rw [if_pos hup]
      exact (Except.ok.inj h).symm
    · next hup =>
      rw [if_neg hup]
      split at h
      · cases h
      · exact (Except.ok.inj h).symm

theorem eq_foldl_descend (h : names.foldlM files.stepFrom here = .ok place) :
    place = names.foldl descend here := by
  induction names generalizing here with
  | nil => exact (Except.ok.inj h).symm
  | cons name rest ih =>
    rw [List.foldlM_cons] at h
    cases hstep : files.stepFrom here name with
    | error cause =>
      rw [hstep] at h
      cases h
    | ok there =>
      rw [hstep] at h
      rw [List.foldl_cons, ← (eq_descend_of_stepFrom hstep).2]
      exact ih h

/-- On the way to a directory there are directories. -/
theorem directory_of_prefix {front back : List String}
    (h : (front ++ back).foldlM files.stepFrom here = .ok place)
    (hnode : files.node? place = some .directory) :
    front.foldlM files.stepFrom here = .ok (front.foldl descend here) ∧
      files.node? (front.foldl descend here) = some .directory := by
  rw [List.foldlM_append] at h
  cases hfront : front.foldlM files.stepFrom here with
  | error cause =>
    rw [hfront] at h
    cases h
  | ok middle =>
    rw [hfront] at h
    obtain rfl := eq_foldl_descend hfront
    refine ⟨rfl, ?_⟩
    cases back with
    | nil => rwa [Except.ok.inj h]
    | cons name rest =>
      -- the next step leaves it
      cases hstep : files.stepFrom (front.foldl descend here) name with
      | ok there => exact (eq_descend_of_stepFrom hstep).1
      | error cause =>
        change (do
          let there ← files.stepFrom (front.foldl descend here) name
          rest.foldlM files.stepFrom there) = _ at h
        rw [hstep] at h
        cases h

/-- Directories that stand are left, up or down, for ones that stand. -/
theorem stands_of_foldlM (hhere : files.Stands here)
    (h : names.foldlM files.stepFrom here = .ok place)
    (hnode : files.node? place = some .directory) : files.Stands place := by
  obtain rfl := eq_foldl_descend h
  induction names using List.reverseRecOn with
  | nil => exact hhere
  | append_singleton front name ih =>
    obtain ⟨hfront, hthere⟩ := directory_of_prefix h hnode
    have hmiddle := ih hfront hthere
    rw [List.foldl_append, List.foldl_cons, List.foldl_nil] at hnode ⊢
    rw [descend] at hnode ⊢
    split
    · next hup => exact fun above habove => hmiddle above (habove.trans (List.tail_suffix _))
    · next hup =>
      rw [if_neg hup] at hnode
      intro above habove
      obtain rfl | hsuffix := List.suffix_cons_iff.1 habove
      · exact hnode
      · exact hmiddle above hsuffix

/-- The names of a place that is gone to are those of where one starts, and those that one goes
down by. -/
theorem forall_mem_of_foldlM {P : String → Prop} (hhere : ∀ name ∈ here, P name)
    (hnames : ∀ name ∈ names, name ≠ ".." → name.utf8ByteSize ≤ maxName → P name)
    (h : names.foldlM files.stepFrom here = .ok place) : ∀ name ∈ place, P name := by
  induction names generalizing here with
  | nil => exact Except.ok.inj h ▸ hhere
  | cons name rest ih =>
    rw [List.foldlM_cons] at h
    cases hstep : files.stepFrom here name with
    | error cause =>
      rw [hstep] at h
      cases h
    | ok there =>
      rw [hstep] at h
      refine ih ?_ (fun other hother => hnames other (List.mem_cons_of_mem name hother)) h
      -- a step up takes a name away, any other step adds one that was given
      by_cases hup : name = ".."
      · obtain ⟨-, rfl⟩ := eq_descend_of_stepFrom hstep
        rw [descend, if_pos hup]
        exact fun other hother => hhere other (List.mem_of_mem_tail hother)
      · obtain ⟨-, hsize, rfl⟩ := (stepFrom_eq_ok_iff hup).1 hstep
        exact List.forall_mem_cons.2 ⟨hnames name List.mem_cons_self hup hsize, hhere⟩

/-- Without steps up, the places on the way are the ends of the last one, down to the first. -/
theorem tails_eq_trail_append (hup : ".." ∉ names) :
    (names.foldl descend here).tails = trail here names ++ here.tails.tail := by
  induction names using List.reverseRecOn with
  | nil => cases here <;> rfl
  | append_singleton front name ih =>
    have hname : name ≠ ".." := fun h => hup (h ▸ List.mem_append_right _ List.mem_cons_self)
    have hfront : ".." ∉ front := fun h => hup (List.mem_append_left _ h)
    rw [trail, List.inits_append, List.foldl_append, List.foldl_cons, List.foldl_nil, descend,
      if_neg hname, List.tails_cons, ih hfront, trail]
    simp [descend, hname]

theorem foldl_descend (hup : ".." ∉ names) : names.foldl descend here = names.reverse ++ here := by
  induction names generalizing here with
  | nil => rfl
  | cons name rest ih =>
    have hname : name ≠ ".." := fun h => hup (h ▸ List.mem_cons_self)
    rw [List.foldl_cons, descend, if_neg hname, ih fun h => hup (List.mem_cons_of_mem name h)]
    simp

/-- Without steps up, the places on the way are those between the first and the last one. -/
theorem mem_trail_iff (hup : ".." ∉ names) :
    above ∈ trail here names ↔ here <:+ above ∧ above <:+ names.foldl descend here := by
  have hmem : above ∈ trail here names ↔
      ∃ front, front <+: names ∧ front.reverse ++ here = above := by
    rw [trail, List.mem_map]
    refine exists_congr fun front => ?_
    rw [List.mem_reverse, List.mem_inits]
    refine and_congr_right fun hfront => ?_
    rw [foldl_descend fun h => hup (hfront.subset h)]
  -- without steps up a trail is what lies between the two places
  rw [hmem, foldl_descend hup]
  constructor
  · rintro ⟨front, hfront, rfl⟩
    obtain ⟨back, hback⟩ := List.reverse_suffix.2 hfront
    exact ⟨List.suffix_append _ _, back, by rw [← hback, List.append_assoc]⟩
  · rintro ⟨⟨near, rfl⟩, back, hback⟩
    rw [← List.append_assoc] at hback
    refine ⟨near.reverse, ?_, by rw [List.reverse_reverse]⟩
    rw [← List.reverse_suffix, List.reverse_reverse]
    exact ⟨back, List.append_cancel_right hback⟩

/-! ## Names in a directory -/

theorem names_within (hname : IsName name) :
    Files.names (Config.within directory name).toList =
      Files.names directory.toList ++ [name.toList] := by
  rw [Config.within, String.toList_ofList, names_join (not_isRooted_of_isPart hname.part),
    names_of_isPart hname.part]

theorem isRooted_within (hname : IsName name) :
    isRooted (Config.within directory name).toList = isRooted directory.toList := by
  have hplain := not_isRooted_of_isPart hname.part
  rw [Config.within, String.toList_ofList, join, hplain, if_neg Bool.false_ne_true]
  cases directory.toList with
  | nil => exact hplain
  | cons c rest => split <;> rfl

theorem endsIdle_within (hname : IsName name) :
    endsIdle (Config.within directory name).toList = false := by
  have hlast : (split '/' (Config.within directory name).toList).getLast? = some name.toList := by
    rw [Config.within, String.toList_ofList]
    have hparts : ∀ part ∈ [name.toList], IsPart part := by simp [hname.part]
    exact getLast?_split_foldl_join hparts rfl
  rw [endsIdle, hlast]
  exact hname.part.2

theorem within_cases (directory : String) (hname : IsName name) :
    Config.within directory name = directory ++ "/" ++ name ∨
      Config.within directory name = directory ++ name := by
  rw [Config.within]
  obtain h | ⟨h, -⟩ := join_cases directory.toList (not_isRooted_of_isPart hname.part)
  · left
    simp [h, ← String.toList_inj]
  · right
    simp [h]

/-- The system takes the location of a name in a directory when it takes the one in a directory
further down. -/
theorem checkLocation_within_of_prefix {start : String} (hname : IsName name)
    (hstart : directory.toList <+: start.toList)
    (h : checkLocation (Config.within start name) = .ok ()) :
    checkLocation (Config.within directory name) = .ok () := by
  obtain ⟨back, hback⟩ := hstart
  obtain rfl : directory ++ String.ofList back = start := by
    simp [← String.toList_inj, hback]
  by_cases hnil : back = []
  · subst hnil
    simpa using h
  have hpos : 0 < (String.ofList back).utf8ByteSize := by
    rw [Nat.pos_iff_ne_zero, ne_eq, String.utf8ByteSize_eq_zero_iff]
    simpa using hnil
  rw [checkLocation_eq_ok_iff] at h ⊢
  obtain ⟨hnul, -, hsize⟩ := h
  have hone : "/".utf8ByteSize = 1 := rfl
  -- the longer location is taken, so its shorter beginning has room for the name
  have hparts : '\x00' ∉ directory.toList ∧
      directory.utf8ByteSize + 1 + name.utf8ByteSize ≤ maxLocation := by
    obtain hfull | hfull := within_cases (directory ++ String.ofList back) hname
    all_goals
      rw [hfull] at hnul hsize
      simp only [String.toList_append, List.mem_append, not_or, String.utf8ByteSize_append]
        at hnul hsize
    · exact ⟨hnul.1.1.1, by omega⟩
    · exact ⟨hnul.1.1, by omega⟩
  refine ⟨?_, fun hempty => ?_, ?_⟩
  · intro hmem
    obtain hjoin | hjoin := within_cases directory hname <;>
      simp [hjoin, hparts.1, hname.nul] at hmem
  · have hnames : Files.names (Config.within directory name).toList = _ := names_within hname
    rw [hempty] at hnames
    simp [names_nil] at hnames
  · obtain hjoin | hjoin := within_cases directory hname <;>
      simp only [hjoin, String.utf8ByteSize_append] <;> omega

/-! ## Finding things in a directory -/

theorem lead_within (files : FileSystem) (directory : String) (hname : IsName name) :
    files.lead (Config.within directory name) =
      files.lead directory >>= fun above => files.stepFrom above name := by
  rw [lead, steps, names_within hname, isRooted_within hname, List.map_append, List.foldlM_append,
    List.map_singleton, String.ofList_toList]
  exact bind_congr fun above => List.foldlM_cons.trans (bind_pure _)

/-- A name is found in a directory that can be reached, when it is there and the system takes its
location. -/
theorem find_within_eq_ok_iff (hname : IsName name) :
    files.find (Config.within directory name) = .ok (place, node) ↔
      checkLocation (Config.within directory name) = .ok () ∧ ∃ above,
        files.lead directory = .ok above ∧ files.node? above = some .directory ∧
        place = name :: above ∧ files.node? place = some node := by
  -- the name is one more step from where the directory leads
  have hlead : files.lead (Config.within directory name) = .ok place ↔ ∃ above,
      files.lead directory = .ok above ∧ files.node? above = some .directory ∧
        place = name :: above := by
    rw [lead_within files directory hname]
    cases files.lead directory with
    | error cause => exact iff_of_false (by intro h; cases h) (by rintro ⟨above, h, -⟩; cases h)
    | ok there =>
      show files.stepFrom there name = .ok place ↔ _
      rw [stepFrom_eq_ok_iff hname.ne_up]
      simp [hname.size_le]
  rw [find_eq_ok_iff, endsIdle_within hname]
  cases hcheck : checkLocation (Config.within directory name) with
  | error cause => simp [walk, hcheck, bind, Except.bind]
  | ok _ =>
    rw [walk_eq_lead hcheck, hlead]
    constructor
    · rintro ⟨⟨above, hdirectory, hnode, hplace⟩, hthere, -⟩
      exact ⟨rfl, above, hdirectory, hnode, hplace, hthere⟩
    · rintro ⟨-, above, hdirectory, hnode, hplace, hthere⟩
      exact ⟨⟨above, hdirectory, hnode, hplace⟩, hthere, by simp⟩

theorem exists?_within_iff (hname : IsName name) :
    files.exists? (Config.within directory name) = true ↔
      checkLocation (Config.within directory name) = .ok () ∧ ∃ above,
        files.lead directory = .ok above ∧ files.node? above = some .directory ∧
        (files.node? (name :: above)).isSome = true := by
  simp only [exists?_eq_true_iff, find_within_eq_ok_iff hname, Option.isSome_iff_exists]
  constructor
  · rintro ⟨place, node, hcheck, above, hlead, hnode, rfl, hthere⟩
    exact ⟨hcheck, above, hlead, hnode, node, hthere⟩
  · rintro ⟨hcheck, above, hlead, hnode, node, hthere⟩
    exact ⟨_, node, hcheck, above, hlead, hnode, rfl, hthere⟩

/-! ## From the root -/

theorem stands_congr (h : ∀ above, above <:+ place → other.node? above = files.node? above) :
    other.Stands place ↔ files.Stands place := by
  constructor <;> intro hstands above habove
  · rw [← h above habove, hstands above habove]
  · rw [h above habove, hstands above habove]

/-- In a directory given from the root, what is found depends on the directories on the way and on
what is at the place itself. -/
theorem find_within_congr (hroot : isRooted directory.toList = true)
    (hup : ['.', '.'] ∉ Files.names directory.toList) (hname : IsName name)
    (h : ∀ above, above <:+ name :: placeOf directory → other.node? above = files.node? above) :
    other.find (Config.within directory name) = .ok (place, node) ↔
      files.find (Config.within directory name) = .ok (place, node) := by
  have hreach : ∀ above,
      (other.lead directory = .ok above ∧ other.node? above = some .directory) ↔
        (files.lead directory = .ok above ∧ files.node? above = some .directory) := by
    intro above
    rw [lead_eq_directory_iff hroot hup, lead_eq_directory_iff hroot hup]
    refine and_congr_right fun hplace => and_congr_left fun _ => ?_
    subst hplace
    exact stands_congr fun further hfurther => h further (hfurther.trans (List.suffix_cons _ _))
  rw [find_within_eq_ok_iff hname, find_within_eq_ok_iff hname]
  refine and_congr_right fun _ => exists_congr fun above => ?_
  rw [← and_assoc, hreach above, ← and_assoc (c := place = _ ∧ _)]
  refine and_congr_right fun hthere => and_congr_right fun hentry => ?_
  obtain ⟨rfl, -, -⟩ := (lead_eq_directory_iff hroot hup).1 hthere
  rw [hentry, h _ List.suffix_rfl]

end FileSystem

end Locator.Files
