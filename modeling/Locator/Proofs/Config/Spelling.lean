import Locator.Proofs.Config.Search

/-!
# How the start of a search is written

The search for the files of a project goes up by leaving out the last part of a text. Where the text
starts at the root this is going up the directories; where it hangs on the working directory it ends
there, and where it has steps up in it the search goes down again. What a search comes to is what
the first place with files comes to, among the places that it goes through (`plain_discover`), so
searches that go through different places differ.

* `Leads`: a text leads to a directory, and to the files in it
* `plain_discover`: what a search comes to, apart from how locations are written
* `discover_spelling`: the search from a relative location and from the directory that it leads to
-/

namespace Locator.Config

open Files (FileSystem Place)
open Files.FileSystem (IsName steps placeOf trail descend)

variable {files : FileSystem} {place : Place} {places : List Place} {directory start : String}

/-! ## Results without locations -/

/-- The error without the location that it is about. -/
def unplaced : Error → Error
  | .invalidPath _ fault => .invalidPath "" fault
  | .validation _ violation => .validation "" violation
  | error => error

/-- What was read, or what is wrong, without locations. -/
def plain (result : Except Error (List Source)) : Except Error (List (Nat × Config)) :=
  (result.map fun sources => sources.map fun source => (source.precedence, source.config)).mapError
    unplaced

/-! ## Places -/

/-- The files of a project that there are at a place. -/
def foundAt (files : FileSystem) (place : Place) : List (String × Nat) :=
  projectFiles.filter fun file => (files.node? (file.1 :: place)).isSome

/-- What the files of a project at a place come to. -/
def outcomeAt (files : FileSystem) (place : Place) : Except Trouble (List (Nat × Config)) :=
  (foundAt files place).mapM fun file =>
    (loadPlace files (file.1 :: place)).map fun config => (file.2, config)

/-- What the first place with files comes to. -/
def outcome (files : FileSystem) (places : List Place) : Except Trouble (List (Nat × Config)) :=
  match places.find? fun place => !(foundAt files place).isEmpty with
  | some place => outcomeAt files place
  | none => .ok []

/-- A text leads to a directory, and the system takes the locations of its files. -/
structure Leads (files : FileSystem) (directory : String) (place : Place) : Prop where
  lead : files.lead directory = .ok place
  there : files.node? place = some .directory
  taken : ∀ file ∈ projectFiles,
    FileSystem.checkLocation (within directory file.1) = .ok ()

namespace Leads

theorem find_iff (h : Leads files directory place) {file : String × Nat}
    (hfile : file ∈ projectFiles) (entry : Place) (node : Files.Node) :
    files.find (within directory file.1) = .ok (entry, node) ↔
      entry = file.1 :: place ∧ files.node? entry = some node := by
  rw [Files.FileSystem.find_within_eq_ok_iff (isName_of_mem_projectFiles hfile), h.lead,
    h.taken file hfile]
  constructor
  · rintro ⟨-, above, hlead, -, hentry, hnode⟩
    obtain rfl := Except.ok.inj hlead
    exact ⟨hentry, hnode⟩
  · rintro ⟨hentry, hnode⟩
    exact ⟨rfl, place, rfl, h.there, hentry, hnode⟩

theorem found_eq (h : Leads files directory place) :
    found files directory = foundAt files place := by
  refine List.filter_congr fun file hfile => ?_
  rw [Bool.eq_iff_iff, Files.FileSystem.exists?_eq_true_iff, Option.isSome_iff_exists]
  simp only [h.find_iff hfile]
  constructor
  · rintro ⟨_, node, rfl, hnode⟩
    exact ⟨node, hnode⟩
  · rintro ⟨node, hnode⟩
    exact ⟨_, node, rfl, hnode⟩

theorem plain_readSource (h : Leads files directory place) {file : String × Nat}
    (hfile : file ∈ foundAt files place) :
    ((readSource files (within directory file.1, file.2)).map fun source =>
        (source.precedence, source.config)).mapError unplaced =
      ((loadPlace files (file.1 :: place)).map fun config => (file.2, config)).mapError
        (·.toError "") := by
  rw [foundAt, List.mem_filter, Option.isSome_iff_exists] at hfile
  obtain ⟨hfile, node, hnode⟩ := hfile
  rw [readSource, loadFile_of_find ((h.find_iff hfile _ _).2 ⟨rfl, hnode⟩)]
  cases loadPlace files (file.1 :: place) with
  | ok config => rfl
  | error trouble => cases trouble <;> rfl

end Leads

/-- What comes to the same has failed or succeeded both times. -/
theorem eq_cases {α β ε τ δ : Type} {view : α → β} {blame : ε → δ} {blame' : τ → δ}
    {one : Except ε α} {other : Except τ β}
    (h : (one.map view).mapError blame = other.mapError blame') :
    (∃ error trouble, one = .error error ∧ other = .error trouble ∧ blame error = blame' trouble) ∨
      ∃ value, one = .ok value ∧ other = .ok (view value) := by
  cases one with
  | error error =>
    cases other with
    | error trouble => exact .inl ⟨error, trouble, rfl, rfl, Except.error.inj h⟩
    | ok value => cases h
  | ok value =>
    cases other with
    | error trouble => cases h
    | ok value' =>
      obtain rfl := Except.ok.inj h
      exact .inr ⟨value, rfl, rfl⟩

/-- Reading one after the other, when each is read the same apart from its location. -/
theorem plain_mapM {items : List (String × Nat)} {read : String × Nat → Except Error Source}
    {load : String × Nat → Except Trouble (Nat × Config)}
    (h : ∀ item ∈ items,
      ((read item).map fun source => (source.precedence, source.config)).mapError unplaced =
        (load item).mapError (·.toError "")) :
    plain (items.mapM read) = (items.mapM load).mapError (·.toError "") := by
  induction items with
  | nil => rfl
  | cons item rest ih =>
    have hrest := ih fun other hother => h other (List.mem_cons_of_mem item hother)
    rw [List.mapM_cons, List.mapM_cons]
    obtain ⟨error, trouble, hread, hload, hsame⟩ | ⟨source, hread, hload⟩ :=
      eq_cases (h item List.mem_cons_self)
    · -- the first failure is the one that counts
      rw [hread, hload]
      exact congrArg Except.error hsame
    · rw [hread, hload]
      obtain ⟨error, trouble, hsources, hentries, hsame⟩ | ⟨sources, hsources, hentries⟩ :=
        eq_cases hrest
      · rw [hsources, hentries]
        exact congrArg Except.error hsame
      · rw [hsources, hentries]
        rfl

/-- The first text that leads to files, and the first place that has any. -/
theorem find_of_leads {texts : List String} (h : List.Forall₂ (Leads files) texts places) :
    (texts.find? (fun directory => !(found files directory).isEmpty) = none ∧
        places.find? (fun place => !(foundAt files place).isEmpty) = none) ∨
      ∃ directory place, Leads files directory place ∧
        texts.find? (fun directory => !(found files directory).isEmpty) = some directory ∧
        places.find? (fun place => !(foundAt files place).isEmpty) = some place := by
  induction h with
  | nil => exact .inl ⟨rfl, rfl⟩
  | @cons directory place texts places hleads _ ih =>
    rw [List.find?_cons, List.find?_cons, hleads.found_eq]
    cases (foundAt files place).isEmpty with
    | false => exact .inr ⟨directory, place, hleads, rfl, rfl⟩
    | true => exact ih

/-- A search comes to what the first place with files comes to, among those that it goes through. -/
theorem plain_discover (h : List.Forall₂ (Leads files) (searched start) places) :
    plain (discover files start.toList) =
      (outcome files places).mapError (·.toError "") := by
  rw [outcome]
  obtain ⟨hnone, hplaces⟩ | ⟨directory, place, hleads, hsome, hplaces⟩ := find_of_leads h
  · rw [hplaces, discover_of_nearest_none (by rw [nearest?_eq_find?, hnone])]
    rfl
  · rw [hplaces, discover_of_nearest (by rw [nearest?_eq_find?, hsome]), hleads.found_eq]
    exact plain_mapM fun file hfile => hleads.plain_readSource hfile

/-! ## The ways up -/

/-- The search from the location of a directory, given from the root and without steps up, goes
through that directory and all the directories above it. -/
theorem leads_of_rooted (hroot : Files.isRooted start.toList = true)
    (hup : ['.', '.'] ∉ Files.names start.toList) (hstands : files.Stands (placeOf start))
    (hsizes : ∀ name ∈ placeOf start, name.utf8ByteSize ≤ Files.maxName)
    (htaken : ∀ file ∈ projectFiles,
      FileSystem.checkLocation (within start file.1) = .ok ()) :
    List.Forall₂ (Leads files) (searched start) (placeOf start).tails := by
  have hgoing := goingUp_searched hroot
  -- without steps up, going up to the root leaves the names off one by one
  have hplaces : (placeOf start).tails = (searched start).map placeOf := by
    have hnames := congrArg (List.map fun names => (names.map String.ofList).reverse) hgoing.names
    rw [List.map_map, List.map_map, List.map_reverse] at hnames
    refine Eq.trans ?_ hnames.symm
    rw [placeOf, steps, List.tails_reverse, List.map_inits, List.map_map]
    rfl
  rw [hplaces, List.forall₂_map_right_iff, List.forall₂_same]
  intro directory hdirectory
  obtain ⟨hrooted, hnoup, hsuffix⟩ := rooted_of_mem_searched hroot hup hdirectory
  obtain ⟨hlead, hthere⟩ := (Files.FileSystem.lead_eq_directory_iff hrooted hnoup).2
    ⟨rfl, fun above habove => hstands above (habove.trans hsuffix),
      fun name hname => hsizes name (hsuffix.subset hname)⟩
  refine ⟨hlead, hthere, fun file hfile => ?_⟩
  exact Files.FileSystem.checkLocation_within_of_prefix (isName_of_mem_projectFiles hfile)
    (hgoing.starts _ (List.mem_map_of_mem hdirectory)) (htaken file hfile)

/-- The last name goes each time, down to none, and there may be one more step without a name. -/
theorem map_steps_searched (hroot : Files.isRooted start.toList = false) :
    ∃ more, (more = [] ∨ more = [[]]) ∧
      (searched start).map steps = (steps start).inits.reverse ++ more := by
  obtain ⟨more, hmore, hnames⟩ := Files.map_names_selfAndAbove_of_not_rooted hroot
  refine ⟨more.map (List.map String.ofList), ?_, ?_⟩
  · obtain rfl | rfl := hmore
    · exact .inl rfl
    · exact .inr rfl
  · have hall := congrArg (List.map (List.map String.ofList)) hnames
    rw [List.map_append, List.map_reverse, ← List.map_inits, List.map_map] at hall
    rw [searched, List.map_map]
    refine Eq.trans (List.map_congr_left fun text _ => ?_) hall
    simp [steps]

theorem prefix_of_mem_searched (hroot : Files.isRooted start.toList = false)
    (h : directory ∈ searched start) :
    Files.isRooted directory.toList = false ∧ directory.toList <+: start.toList ∧
      steps directory <+: steps start := by
  obtain ⟨text, htext, rfl⟩ := List.mem_map.1 h
  obtain ⟨hrelative, hprefix⟩ := Files.prefix_of_mem_selfAndAbove_of_not_rooted hroot htext
  rw [String.toList_ofList]
  refine ⟨hrelative, hprefix, ?_⟩
  obtain ⟨more, hmore, hsteps⟩ := map_steps_searched hroot
  have hmem := List.mem_map_of_mem (f := steps) h
  rw [hsteps, List.mem_append, List.mem_reverse, List.mem_inits] at hmem
  obtain hfront | hnone := hmem
  · exact hfront
  · -- the step without a name
    obtain rfl | rfl := hmore
    · cases hnone
    · rw [List.mem_singleton.1 hnone]
      exact List.nil_prefix

/-- The search from a location that hangs on the working directory goes back through the places
that its names lead to, one after the other, to the working directory. -/
theorem leads_of_not_rooted (hroot : Files.isRooted start.toList = false)
    (hlead : files.lead start = .ok place) (hthere : files.node? place = some .directory)
    (htaken : ∀ file ∈ projectFiles,
      FileSystem.checkLocation (within start file.1) = .ok ()) :
    ∃ more, (more = [] ∨ more = [files.workingDirectory]) ∧
      List.Forall₂ (Leads files) (searched start)
        (trail files.workingDirectory (steps start) ++ more) := by
  obtain ⟨more, hmore, hsteps⟩ := map_steps_searched hroot
  -- going up a relative location takes its names back to the working directory, and no further
  have hplaces : trail files.workingDirectory (steps start) ++
      more.map (List.foldl descend files.workingDirectory) =
        (searched start).map fun directory =>
          (steps directory).foldl descend files.workingDirectory := by
    have hall := congrArg (List.map (List.foldl descend files.workingDirectory)) hsteps
    rw [List.map_map, List.map_append] at hall
    exact hall.symm
  refine ⟨more.map (List.foldl descend files.workingDirectory), ?_, ?_⟩
  · obtain rfl | rfl := hmore
    · exact .inl rfl
    · exact .inr rfl
  rw [hplaces, List.forall₂_map_right_iff, List.forall₂_same]
  intro directory hdirectory
  obtain ⟨hrelative, hprefix, back, hback⟩ := prefix_of_mem_searched hroot hdirectory
  rw [Files.FileSystem.lead, hroot, if_neg Bool.false_ne_true, ← hback] at hlead
  obtain ⟨hfront, hnode⟩ := Files.FileSystem.directory_of_prefix hlead hthere
  refine ⟨?_, hnode, fun file hfile => ?_⟩
  · rw [Files.FileSystem.lead, hrelative, if_neg Bool.false_ne_true]
    exact hfront
  · exact Files.FileSystem.checkLocation_within_of_prefix (isName_of_mem_projectFiles hfile)
      hprefix (htaken file hfile)

/-! ## Comparing outcomes -/

theorem outcomeAt_ne_nil (h : foundAt files place ≠ []) : outcomeAt files place ≠ .ok [] := by
  rw [outcomeAt]
  cases hfound : foundAt files place with
  | nil => exact absurd hfound h
  | cons file rest =>
    rw [List.mapM_cons]
    intro hok
    -- a file that is found gives an entry or an error, and neither is an empty list
    cases hload : (loadPlace files (file.1 :: place)).map fun config => (file.2, config) with
    | error trouble =>
      rw [hload] at hok
      cases hok
    | ok entry =>
      rw [hload] at hok
      cases hrest : rest.mapM fun file =>
          (loadPlace files (file.1 :: place)).map fun config => (file.2, config) with
      | error trouble =>
        rw [hrest] at hok
        cases hok
      | ok entries =>
        rw [hrest] at hok
        cases hok

theorem outcome_eq_nil_iff :
    outcome files places = .ok [] ↔ ∀ place ∈ places, foundAt files place = [] := by
  rw [outcome]
  cases hfirst : places.find? fun place => !(foundAt files place).isEmpty with
  | none => simpa using List.find?_eq_none.1 hfirst
  | some place =>
    have hfound : foundAt files place ≠ [] := by simpa using List.find?_some hfirst
    refine iff_of_false (outcomeAt_ne_nil hfound) fun hall => ?_
    exact hfound (hall place (List.mem_of_find?_eq_some hfirst))

/-- Places further on count when none of the first ones has files. -/
theorem outcome_append (files : FileSystem) (near far : List Place) :
    (∃ place ∈ near, foundAt files place ≠ []) ∧
        outcome files (near ++ far) = outcome files near ∨
      (∀ place ∈ near, foundAt files place = []) ∧
        outcome files near = .ok [] ∧ outcome files (near ++ far) = outcome files far := by
  rw [← outcome_eq_nil_iff, outcome, outcome, outcome, List.find?_append]
  cases hfirst : near.find? fun place => !(foundAt files place).isEmpty with
  | none => exact .inr ⟨rfl, rfl, rfl⟩
  | some place =>
    refine .inl ⟨⟨place, List.mem_of_find?_eq_some hfirst, ?_⟩, rfl⟩
    simpa using List.find?_some hfirst

theorem outcome_append_eq_iff {near far : List Place} :
    outcome files near = outcome files (near ++ far) ↔
      (∃ place ∈ near, foundAt files place ≠ []) ∨ ∀ place ∈ far, foundAt files place = [] := by
  obtain ⟨hsome, heq⟩ | ⟨hnone, hnil, heq⟩ := outcome_append files near far
  · exact iff_of_true heq.symm (.inl hsome)
  · rw [heq, hnil, eq_comm, outcome_eq_nil_iff]
    refine ⟨.inr, fun h => h.resolve_left ?_⟩
    rintro ⟨place, hplace, hfound⟩
    exact hfound (hnone place hplace)

theorem mapError_toError_inj {one two : Except Trouble (List (Nat × Config))} :
    one.mapError (·.toError "") = two.mapError (·.toError "") ↔ one = two := by
  refine ⟨fun h => ?_, congrArg _⟩
  cases one with
  | ok configs =>
    cases two with
    | ok others => exact congrArg Except.ok (Except.ok.inj h)
    | error trouble => cases h
  | error trouble =>
    cases two with
    | ok others => cases h
    | error other =>
      have herror := Except.error.inj h
      cases trouble <;> cases other <;> simp_all [Trouble.toError]

/-! ## Loading -/

/-- The files of the user come first, however the start is written. -/
theorem plain_load_eq_iff (environment : Environment) (userDirectory : Option String)
    (start other : String) :
    plain (load files environment start userDirectory) =
        plain (load files environment other userDirectory) ↔
      (∃ error, loadUser files environment userDirectory = .error error) ∨
        plain (discover files start.toList) = plain (discover files other.toList) := by
  rw [load, load]
  cases loadUser files environment userDirectory with
  | error error => exact iff_of_true rfl (.inl ⟨error, rfl⟩)
  | ok user =>
    rw [or_iff_right (by rintro ⟨_, h⟩; cases h)]
    have hplain : ∀ result : Except Error (List Source),
        plain (do
          let user ← Except.ok user
          return user ++ (← result)) =
          (plain result).map
            ((user.map fun source => (source.precedence, source.config)) ++ ·) := by
      intro result
      cases result with
      | error error => rfl
      | ok sources => exact congrArg Except.ok List.map_append
    rw [hplain, hplain]
    -- the sources of the user are in front on both sides, so the rest has to agree
    refine ⟨fun h => ?_, congrArg _⟩
    generalize plain (discover files start.toList) = one at h ⊢
    generalize plain (discover files other.toList) = two at h ⊢
    cases one with
    | error error =>
      cases two with
      | error error' => exact congrArg Except.error (Except.error.inj h)
      | ok configs => cases h
    | ok configs =>
      cases two with
      | error error => cases h
      | ok others => exact congrArg Except.ok (List.append_cancel_left (Except.ok.inj h))

/-! ## One directory, two ways to write it -/

theorem lead_of_find {node : Files.Node} (hfind : files.find start = .ok (place, node)) :
    FileSystem.checkLocation start = .ok () ∧ files.lead start = .ok place := by
  obtain ⟨hwalk, -, -⟩ := Files.FileSystem.find_eq_ok_iff.1 hfind
  cases hcheck : FileSystem.checkLocation start with
  | ok _ => exact ⟨rfl, Files.FileSystem.walk_eq_lead hcheck ▸ hwalk⟩
  | error cause =>
    rw [FileSystem.walk, hcheck] at hwalk
    cases hwalk

theorem isName_of_find {node : Files.Node} (here : files.HasWorkingDirectory)
    (hroot : Files.isRooted start.toList = false)
    (hfind : files.find start = .ok (place, node)) : ∀ name ∈ place, IsName name := by
  obtain ⟨hcheck, hlead⟩ := lead_of_find hfind
  rw [Files.FileSystem.lead, hroot, if_neg Bool.false_ne_true] at hlead
  refine Files.FileSystem.forall_mem_of_foldlM here.names ?_ hlead
  intro name hname hup hsize
  obtain ⟨text, htext, rfl⟩ := List.mem_map.1 hname
  refine ⟨?_, hup, fun hnul => ?_, hsize⟩
  · rw [String.toList_ofList]
    exact Files.isPart_of_mem_names htext
  · rw [String.toList_ofList] at hnul
    exact (Files.FileSystem.checkLocation_eq_ok_iff.1 hcheck).1 (Files.mem_of_mem_names htext hnul)

/-- The search from the location of a place where a directory stands. -/
theorem plain_discover_locationOf (hnames : ∀ name ∈ place, IsName name)
    (hstands : files.Stands place)
    (htaken : ∀ file ∈ projectFiles,
      FileSystem.checkLocation (within (FileSystem.locationOf place) file.1) = .ok ()) :
    plain (discover files (FileSystem.locationOf place).toList) =
      (outcome files place.tails).mapError (·.toError "") := by
  have hlocation := Files.FileSystem.names_locationOf hnames
  have hplace : placeOf (FileSystem.locationOf place) = place := by
    rw [placeOf, steps, hlocation, List.map_map, String.ofList_comp_toList, List.map_id,
      List.reverse_reverse]
  have hup : ['.', '.'] ∉ Files.names (FileSystem.locationOf place).toList := by
    rw [hlocation, List.mem_map]
    rintro ⟨name, hname, hdots⟩
    refine (hnames name (List.mem_reverse.1 hname)).ne_up ?_
    rw [← String.toList_inj, hdots]
    rfl
  have hleads := leads_of_rooted (Files.FileSystem.isRooted_locationOf place) hup
    (by rwa [hplace]) (by rw [hplace]; exact fun name hname => (hnames name hname).size_le) htaken
  rw [hplace] at hleads
  exact plain_discover hleads

/-- The search from a location that hangs on the working directory. -/
theorem plain_discover_of_not_rooted (hroot : Files.isRooted start.toList = false)
    (hlead : files.lead start = .ok place) (hthere : files.node? place = some .directory)
    (htaken : ∀ file ∈ projectFiles,
      FileSystem.checkLocation (within start file.1) = .ok ()) :
    plain (discover files start.toList) =
      (outcome files (trail files.workingDirectory (steps start))).mapError (·.toError "") := by
  obtain ⟨more, hmore, hleads⟩ := leads_of_not_rooted hroot hlead hthere htaken
  rw [plain_discover hleads]
  congr 1
  -- the working directory is the last of the places already
  have hlast : files.workingDirectory ∈ trail files.workingDirectory (steps start) :=
    List.mem_map.2 ⟨[], List.mem_reverse.2 ((List.mem_inits _ _).2 List.nil_prefix), rfl⟩
  refine (outcome_append_eq_iff.2 ?_).symm
  by_cases hfound : foundAt files files.workingDirectory = []
  · right
    intro place hplace
    obtain rfl | rfl := hmore
    · cases hplace
    · rwa [List.mem_singleton.1 hplace]
  · exact .inl ⟨_, hlast, hfound⟩

/-- Without steps up, the two ways differ in the directories above the working directory. -/
theorem outcome_trail_eq_iff {here : Place} {names : List String} (hup : ".." ∉ names) :
    outcome files (trail here names) = outcome files (names.foldl descend here).tails ↔
      (∃ above, here <:+ above ∧ above <:+ names.foldl descend here ∧ foundAt files above ≠ []) ∨
        ∀ above, above <:+ here → foundAt files above = [] := by
  rw [Files.FileSystem.tails_eq_trail_append hup, outcome_append_eq_iff]
  have hnear : (∃ above ∈ trail here names, foundAt files above ≠ []) ↔
      ∃ above, here <:+ above ∧ above <:+ names.foldl descend here ∧ foundAt files above ≠ [] := by
    refine exists_congr fun above => ?_
    rw [Files.FileSystem.mem_trail_iff hup, and_assoc]
  rw [hnear]
  refine or_congr_right' fun hnone => ?_
  -- nothing is found on the trail, the working directory included
  have hfirst : foundAt files here = [] := by
    by_contra hfound
    refine hnone ⟨here, List.suffix_rfl, ?_, hfound⟩
    rw [Files.FileSystem.foldl_descend hup]
    exact List.suffix_append _ _
  have hall : (∀ above ∈ here.tails, foundAt files above = []) ↔
      ∀ above ∈ here.tails.tail, foundAt files above = [] := by
    cases here with
    | nil => simp [hfirst]
    | cons name rest => simp [hfirst]
  simp only [← List.mem_tails]
  exact hall.symm

/-- The search from a location that hangs on the working directory goes back through the places that
its names lead to, and no further than the working directory; the search from the location of the
directory that it leads to goes through that directory and all those above it. Each comes to what
the first of its places with files comes to, and they come to the same when these do. Where no name
leads up, that is when there are files at or below the working directory, on the way to where the
search starts, or none anywhere above either. All the configuration files come to the same when the
searches do, or when the files of the user are wrong already. -/
theorem discover_spelling {files : FileSystem} {start : String} {place : Place}
    (here : files.HasWorkingDirectory) (hroot : Files.isRooted start.toList = false)
    (hfind : files.find start = .ok (place, .directory))
    (htaken : ∀ file ∈ projectFiles,
      FileSystem.checkLocation (within start file.1) = .ok () ∧
      FileSystem.checkLocation (within (FileSystem.locationOf place) file.1) = .ok ()) :
    plain (discover files start.toList) =
      (outcome files (trail files.workingDirectory (steps start))).mapError (·.toError "") ∧
    plain (discover files (FileSystem.locationOf place).toList) =
      (outcome files place.tails).mapError (·.toError "") ∧
    (plain (discover files start.toList) =
        plain (discover files (FileSystem.locationOf place).toList) ↔
      outcome files (trail files.workingDirectory (steps start)) = outcome files place.tails) ∧
    (".." ∉ steps start →
      (plain (discover files start.toList) =
          plain (discover files (FileSystem.locationOf place).toList) ↔
        (∃ above, files.workingDirectory <:+ above ∧ above <:+ place ∧ foundAt files above ≠ []) ∨
          ∀ above, above <:+ files.workingDirectory → foundAt files above = [])) ∧
    ∀ (environment : Environment) (userDirectory : Option String),
      plain (load files environment start userDirectory) =
          plain (load files environment (FileSystem.locationOf place) userDirectory) ↔
        (∃ error, loadUser files environment userDirectory = .error error) ∨
          plain (discover files start.toList) =
            plain (discover files (FileSystem.locationOf place).toList) := by
  obtain ⟨-, hthere, -⟩ := Files.FileSystem.find_eq_ok_iff.1 hfind
  obtain ⟨-, hlead⟩ := lead_of_find hfind
  -- both searches go through directories that stand, the one along the trail of the steps, the
  -- other straight up from the place
  have hwalked := hlead
  rw [Files.FileSystem.lead, hroot, if_neg Bool.false_ne_true] at hwalked
  have hplace := Files.FileSystem.eq_foldl_descend hwalked
  have hstands := Files.FileSystem.stands_of_foldlM here.there hwalked hthere
  have hrelative := plain_discover_of_not_rooted hroot hlead hthere fun file hfile =>
    (htaken file hfile).1
  have habsolute := plain_discover_locationOf (isName_of_find here hroot hfind) hstands
    fun file hfile => (htaken file hfile).2
  have hsame : plain (discover files start.toList) =
      plain (discover files (FileSystem.locationOf place).toList) ↔
        outcome files (trail files.workingDirectory (steps start)) =
          outcome files place.tails := by
    rw [hrelative, habsolute, mapError_toError_inj]
  refine ⟨hrelative, habsolute, hsame, fun hup => ?_, fun environment userDirectory => ?_⟩
  · rw [hsame, hplace]
    exact outcome_trail_eq_iff hup
  · exact plain_load_eq_iff environment userDirectory start _

/-- A disk on which the working directory, `/p/q`, is below a directory with a file of a project,
and above another one. -/
def straddledFiles : FileSystem where
  entries := [
    (["p"], .directory),
    (["respath.yaml", "p"], .file (Bytes.ofString "cache:\n  ttl_seconds: 7\n")),
    (["q", "p"], .directory),
    (["r", "q", "p"], .directory),
    (["respath.yaml", "r", "q", "p"], .file (Bytes.ofString "cache:\n  ttl_seconds: 9\n"))]
  workingDirectory := ["q", "p"]

theorem straddledFiles_hasWorkingDirectory : straddledFiles.HasWorkingDirectory where
  names name hname := by
    obtain rfl | rfl : name = "q" ∨ name = "p" := by simpa [straddledFiles] using hname
    · exact ⟨⟨by decide, by decide⟩, by decide, by decide, by decide⟩
    · exact ⟨⟨by decide, by decide⟩, by decide, by decide, by decide⟩
  there place hplace := by
    rw [← List.mem_tails] at hplace
    have hall : ∀ place ∈ straddledFiles.workingDirectory.tails,
        straddledFiles.node? place = some .directory := by decide +kernel
    exact hall place hplace

/-- A search from below the working directory that is written with a step up comes to the file
further down. -/
theorem discover_spelling_step_up :
    straddledFiles.HasWorkingDirectory ∧ Files.isRooted "r/..".toList = false ∧
      straddledFiles.find "r/.." = .ok (["q", "p"], .directory) ∧
      (∀ file ∈ projectFiles,
        FileSystem.checkLocation (within "r/.." file.1) = .ok () ∧
        FileSystem.checkLocation (within (FileSystem.locationOf ["q", "p"]) file.1) = .ok ()) ∧
      plain (discover straddledFiles "r/..".toList) =
        .ok [(2, { cache := some { ttlSeconds := some 9 } })] ∧
      plain (discover straddledFiles (FileSystem.locationOf ["q", "p"]).toList) =
        .ok [(2, { cache := some { ttlSeconds := some 7 } })] := by
  have hroot : Files.isRooted "r/..".toList = false := by decide +kernel
  have hfind : straddledFiles.find "r/.." = .ok (["q", "p"], .directory) := by
    simp only [FileSystem.find, FileSystem.walk, FileSystem.checkLocation_eq]
    decide +kernel
  have htaken : ∀ file ∈ projectFiles,
      FileSystem.checkLocation (within "r/.." file.1) = .ok () ∧
      FileSystem.checkLocation (within (FileSystem.locationOf ["q", "p"]) file.1) = .ok () := by
    simp only [FileSystem.checkLocation_eq]
    decide +kernel
  have hfirst : outcome straddledFiles (trail ["q", "p"] (steps "r/..")) =
        .ok [(2, { cache := some { ttlSeconds := some 9 } })] ∧
      outcome straddledFiles (["q", "p"] : Place).tails =
        .ok [(2, { cache := some { ttlSeconds := some 7 } })] := by
    decide +kernel
  obtain ⟨hrelative, habsolute, -⟩ :=
    discover_spelling straddledFiles_hasWorkingDirectory hroot hfind htaken
  refine ⟨straddledFiles_hasWorkingDirectory, hroot, hfind, htaken, hrelative.trans ?_,
    habsolute.trans ?_⟩
  · exact congrArg (Except.mapError _) hfirst.1
  · exact congrArg (Except.mapError _) hfirst.2

/-- A search from the dot for the working directory misses the file above it, which the search from
the location of the working directory finds. -/
theorem discover_dot_misses_above :
    straddledFiles.HasWorkingDirectory ∧
      straddledFiles.find "." = .ok (["q", "p"], .directory) ∧
      discover straddledFiles ".".toList = .ok [] ∧
      discover straddledFiles (FileSystem.locationOf ["q", "p"]).toList =
        .ok [{
          location := "/p/respath.yaml"
          precedence := 2
          config := { cache := some { ttlSeconds := some 7 } } }] := by
  have hfind : straddledFiles.find "." = .ok (["q", "p"], .directory) := by
    simp only [FileSystem.find, FileSystem.walk, FileSystem.checkLocation_eq]
    decide +kernel
  have hlocation : FileSystem.locationOf ["q", "p"] = "/p/q" := by decide +kernel
  have hsearched : searched "." = [".", ""] ∧ searched "/p/q" = ["/p/q"] ++ "/p" :: ["/"] := by
    decide +kernel
  have hfound : (∀ directory ∈ [".", "", "/p/q"], found straddledFiles directory = []) ∧
      found straddledFiles "/p" = [(projectFile, 2)] := by
    simp only [found, FileSystem.exists?, FileSystem.find, FileSystem.walk,
      FileSystem.checkLocation_eq]
    decide +kernel
  have hload : loadPlace straddledFiles (projectFile :: placeOf "/p") =
      .ok { cache := some { ttlSeconds := some 7 } } := by
    decide +kernel
  refine ⟨straddledFiles_hasWorkingDirectory, hfind, ?_, ?_⟩
  · refine discover_of_found_nil fun directory hdirectory => hfound.1 directory ?_
    rw [hsearched.1] at hdirectory
    exact List.mem_append_left ["/p/q"] hdirectory
  · have hnearest := nearest?_of_split hsearched.2
      (fun nearer hnearer => hfound.1 nearer (List.mem_append_right [".", ""] hnearer))
      (hfound.2 ▸ List.cons_ne_nil _ _)
    rw [hlocation, discover_of_nearest hnearest, mapM_eq_ok_iff, hfound.2]
    refine .cons ((readSource_eq_ok_iff (by decide) (by decide) ?_).2 ⟨?_, rfl, hload⟩) .nil
    · rw [hfound.2]
      exact List.mem_cons_self
    · decide +kernel

end Locator.Config
