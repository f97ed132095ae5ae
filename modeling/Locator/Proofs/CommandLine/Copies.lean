import Locator.Proofs.CommandLine.Sessions
import Locator.Proofs.Resolver.Copying

/-!
# Copies

What a copy leaves at its destination is judged by what the source had when the command started. A
copy that succeeds delivers just that, unless the source is the destination. A copy whose source
cannot be had leaves the destination alone, unless the source is a directory.

* `run_copy`: a copy is carried out where resolving the source has led
* `copy_onto_itself`, `copy_of_directory`: the two copies that cost the destination its content
* `copy_delivers_iff`: what there is after a copy that succeeded
* `copy_spares_iff`: what there is after a copy without a source
-/

namespace Locator.CommandLine

open Files (FileSystem)
open Resolver (Action candidates stripFilePrefix)
open Resolver.Action (Names)

variable {globals : Globals} {surroundings : Surroundings} {source dest resolved : String}
  {parent : Option String} {config : Config} {error : Error} {files : FileSystem}
  {place above : Files.Place}

/-! ## Sources and reports -/

/-- What the source of a copy resolves to. -/
def resolvedSource (globals : Globals) (surroundings : Surroundings) (parent : Option String)
    (source : String) : Except Error String :=
  (globals.configuration surroundings).result.map fun config =>
    ((Action.resolve config.resolved parent source).run
      (surroundings.session config.resolved)).1

/-- What the source of a copy has in it when the command starts. -/
def sourceContent (globals : Globals) (surroundings : Surroundings) (parent : Option String)
    (source : String) : Except Error Bytes :=
  (globals.configuration surroundings).result.bind fun config =>
    let start := surroundings.session config.resolved
    let resolved := ((Action.resolve config.resolved parent source).run start).1
    ((Action.readWhole resolved).run start).1

/-- What is said about a copy. -/
def copyReport (resolved dest : String) (quiet : Bool) : Except Error Nat → Report
  | .error error => .failed (.ofError error)
  | .ok count =>
    let note := "Copied " ++ toString count ++ " bytes from " ++ resolved ++ " to " ++ dest
    { notes := if quiet then [] else [note] }

theorem exitCode_copyReport_eq_zero_iff {quiet : Bool} {result : Except Error Nat} :
    (copyReport resolved dest quiet result).exitCode = 0 ↔ ∃ count, result = .ok count := by
  rw [Report.exitCode_eq_zero_iff]
  cases result with
  | ok count => exact iff_of_true rfl ⟨count, rfl⟩
  | error error =>
    refine iff_of_false ?_ (not_exists_ok error)
    intro h
    cases h

theorem exitCode_copyReport_error {quiet : Bool} (error : Error) :
    (copyReport resolved dest quiet (.error error)).exitCode ≠ 0 := by
  rw [Ne, exitCode_copyReport_eq_zero_iff]
  exact not_exists_ok error

/-- The source resolves to the first of its candidates that can be reached. -/
theorem resolvedSource_eq (hconfig : (globals.configuration surroundings).result = .ok config)
    (parent : Option String) (source : String) :
    let start := surroundings.session config.resolved
    resolvedSource globals surroundings parent source =
      .ok ((((candidates config.resolved parent source).find? start.reaches).map
        start.place).getD (stripFilePrefix source)) := by
  intro start
  obtain ⟨hresolved, -⟩ := Action.resolve_current
    (session_current surroundings config.resolved) config.resolved parent source
  rw [← hresolved, resolvedSource, hconfig]
  rfl

theorem resolvedSource_of_reaches {found : Resolver.Candidate} {rest : List Resolver.Candidate}
    (hconfig : (globals.configuration surroundings).result = .ok config)
    (hcandidates : candidates config.resolved parent source = found :: rest)
    (hreaches : (surroundings.session config.resolved).reaches found = true) :
    resolvedSource globals surroundings parent source =
      .ok ((surroundings.session config.resolved).place found) := by
  rw [resolvedSource_eq hconfig, hcandidates, List.find?_cons_of_pos hreaches]
  rfl

/-- What the source has is decided by what it resolves to. -/
theorem sourceContent_eq
    (hconfig : (globals.configuration surroundings).result = .ok config)
    (h : resolvedSource globals surroundings parent source = .ok resolved) :
    sourceContent globals surroundings parent source =
      ((Action.readWhole resolved).run (surroundings.session config.resolved)).1 := by
  rw [resolvedSource, hconfig] at h
  rw [sourceContent, hconfig, ← Except.ok.inj h]
  rfl

/-! ## Runs -/

/-- What a copy leaves behind. -/
def copyOutcome (globals : Globals) (surroundings : Surroundings) (source dest : String)
    (parent : Option String) : Outcome :=
  Invocation.run { globals, command := .copy source dest parent } surroundings

theorem copyOutcome_eq (globals : Globals) (surroundings : Surroundings) (source dest : String)
    (parent : Option String) :
    copyOutcome globals surroundings source dest parent =
      withResources globals surroundings (copy source dest parent globals.quiet) :=
  rfl

theorem copy_run (source dest : String) (parent : Option String) (quiet : Bool)
    (settings : Settings) (session : Resolver.Session) :
    let first := (Action.resolve settings parent source).run session
    let copied := (Action.copyResource first.1 dest).run first.2
    (copy source dest parent quiet settings).run session =
      (copyReport first.1 dest quiet copied.1, copied.2) := by
  rw [copy, Action.run_bind]
  generalize (Action.resolve settings parent source).run session = first
  simp only [Action.run_bind]
  generalize (Action.copyResource first.1 dest).run first.2 = copied
  obtain ⟨result, after⟩ := copied
  cases result <;> rfl

/-- With settings, a copy is carried out in the session that resolving the source has led to, and
the source still has what it had. -/
theorem run_copy (hconfig : (globals.configuration surroundings).result = .ok config)
    (source dest : String) (parent : Option String) :
    ∃ resolved middle, middle.files = surroundings.files ∧
      resolvedSource globals surroundings parent source = .ok resolved ∧
      sourceContent globals surroundings parent source =
        ((Action.readWhole resolved).run middle).1 ∧
      let copied := (Action.copyResource resolved dest).run middle
      (copyOutcome globals surroundings source dest parent).report =
          copyReport resolved dest globals.quiet copied.1 ∧
        (copyOutcome globals surroundings source dest parent).files = copied.2.files := by
  have current := session_current surroundings config.resolved
  obtain ⟨-, hfollows⟩ := Action.resolve_current current config.resolved parent source
  have hrun := copy_run source dest parent globals.quiet config.resolved
    (surroundings.session config.resolved)
  have hresolved : resolvedSource globals surroundings parent source =
      .ok ((Action.resolve config.resolved parent source).run
        (surroundings.session config.resolved)).1 := by
    rw [resolvedSource, hconfig]
    rfl
  obtain ⟨hreport, hfiles⟩ :=
    withResources_of_ok hconfig (copy source dest parent globals.quiet)
  have hcontent := sourceContent_eq hconfig hresolved
  rw [← Action.readWhole_of_follows current hfollows] at hcontent
  -- what is resolved and the session behind it are all that the rest depends on
  generalize (Action.resolve config.resolved parent source).run
    (surroundings.session config.resolved) = first at hfollows hrun hresolved hcontent
  rw [copyOutcome_eq]
  rw [hrun] at hreport hfiles
  exact ⟨first.1, first.2, hfollows.files_eq, hresolved, hcontent, hreport, hfiles⟩

/-- Without settings there is no copy. -/
theorem copyOutcome_of_error (hconfig : (globals.configuration surroundings).result = .error error)
    (source dest : String) (parent : Option String) :
    (copyOutcome globals surroundings source dest parent).report.exitCode ≠ 0 ∧
      (copyOutcome globals surroundings source dest parent).files = surroundings.files := by
  obtain ⟨hreport, hfiles⟩ :=
    withResources_of_error hconfig (copy source dest parent globals.quiet)
  rw [copyOutcome_eq]
  refine ⟨?_, hfiles⟩
  rw [hreport, Report.exitCode_failed]
  exact Failure.exitCode_ne_zero _

/-- A copy of a file to where it is succeeds, and leaves nothing of it. -/
theorem copy_onto_itself (hconfig : (globals.configuration surroundings).result = .ok config)
    (hresolved : resolvedSource globals surroundings parent source = .ok resolved)
    (hnames : Names surroundings.files resolved place)
    (hcreate : surroundings.files.createFile dest = .ok (place, files)) :
    (copyOutcome globals surroundings source dest parent).report =
        copyReport resolved dest globals.quiet (.ok 0) ∧
      (copyOutcome globals surroundings source dest parent).files = files := by
  obtain ⟨other, middle, hsame, hother, -, hreport, hfiles⟩ := run_copy hconfig source dest parent
  obtain rfl : resolved = other := Except.ok.inj (hresolved.symm.trans hother)
  rw [← hsame] at hnames hcreate
  obtain ⟨hresult, hemptied⟩ := Action.copyResource_self hnames hcreate
  rw [← hresult, ← hemptied]
  exact ⟨hreport, hfiles⟩

/-- A copy of a directory fails, and leaves an empty file. -/
theorem copy_of_directory (hconfig : (globals.configuration surroundings).result = .ok config)
    (hresolved : resolvedSource globals surroundings parent source = .ok resolved)
    (hnames : Names surroundings.files resolved above)
    (hnode : surroundings.files.node? above = some .directory)
    (hcreate : surroundings.files.createFile dest = .ok (place, files)) :
    (copyOutcome globals surroundings source dest parent).report.exitCode ≠ 0 ∧
      (copyOutcome globals surroundings source dest parent).files = files := by
  obtain ⟨other, middle, hsame, hother, -, hreport, hfiles⟩ := run_copy hconfig source dest parent
  obtain rfl : resolved = other := Except.ok.inj (hresolved.symm.trans hother)
  rw [← hsame] at hnames hnode hcreate
  obtain ⟨⟨failure, hfailure⟩, hemptied⟩ := Action.copyResource_directory hnames hnode hcreate
  refine ⟨?_, hfiles.trans hemptied⟩
  rw [hreport, hfailure]
  exact exitCode_copyReport_error failure

/-! ## What a copy delivers -/

/-- After a copy that succeeded the destination has the content that the source had when the command
started, and the number of its bytes is reported, unless the source names the destination and had
something in it: then the destination is empty, and that is reported. Nothing else changes. -/
theorem copy_delivers_iff
    (hok : (copyOutcome globals surroundings source dest parent).report.exitCode = 0) :
    let outcome := copyOutcome globals surroundings source dest parent
    ∃ resolved content place delivered,
      resolvedSource globals surroundings parent source = .ok resolved ∧
      sourceContent globals surroundings parent source = .ok content ∧
      surroundings.files.walk dest = .ok place ∧
      outcome.files.find dest = .ok (place, .file delivered) ∧
      outcome.report.notes = (if globals.quiet then [] else
        ["Copied " ++ toString delivered.length ++ " bytes from " ++ resolved ++ " to " ++ dest]) ∧
      (delivered = content ↔ (Names surroundings.files resolved place → content = [])) ∧
      (Names surroundings.files resolved place → delivered = []) ∧
      ∀ other, other ≠ place → outcome.files.node? other = surroundings.files.node? other := by
  intro outcome
  cases hconfig : (globals.configuration surroundings).result with
  | error error => exact absurd hok (copyOutcome_of_error hconfig source dest parent).1
  | ok config =>
    obtain ⟨resolved, middle, hsame, hresolved, hcontent, hreport, hfiles⟩ :=
      run_copy hconfig source dest parent
    rw [hreport, exitCode_copyReport_eq_zero_iff] at hok
    obtain ⟨count, hcount⟩ := hok
    obtain ⟨content, place, emptied, delivered, writes, hread, hcreate, rfl, hstore, hself,
      hother⟩ := Action.copyResource_ok hcount
    rw [hsame] at hcreate hstore hself hother
    obtain ⟨hwalk, -⟩ := FileSystem.createFile_eq_ok_iff.1 hcreate
    have houtcome : outcome.files = surroundings.files.store place delivered writes :=
      hfiles.trans hstore
    refine ⟨resolved, content, place, delivered, hresolved, hcontent.trans hread, hwalk, ?_, ?_, ?_,
      hself, fun other hne => ?_⟩
    · rw [houtcome]
      exact FileSystem.find_store hcreate delivered writes
    · show (copyOutcome globals surroundings source dest parent).report.notes = _
      rw [hreport, hcount]
      rfl
    · -- the content arrives unless the destination is the source itself, which is emptied first
      constructor
      · rintro rfl hnames
        exact hself hnames
      · intro hnothing
        by_cases hnames : Names surroundings.files resolved place
        · rw [hself hnames, hnothing hnames]
        · exact hother hnames
    · rw [houtcome, FileSystem.node?_store_of_ne hne]

/-- A display and a directory resolve to their absolute locations. -/
theorem resolvedSource_display :
    resolvedSource {} displaySurroundings none "pump.bob" = .ok "/displays/pump.bob" ∧
      resolvedSource {} displaySurroundings none "images" = .ok "/displays/images" := by
  obtain ⟨hnames, hpump, himages⟩ := names_display
  obtain ⟨hdisplay, -, hdirectory, -⟩ := find_display
  rw [← hpump, ← himages]
  exact ⟨resolvedSource_of_reaches configuration_display (hnames "pump.bob" (by decide)).1
      (FileSystem.exists?_eq_true_iff.2 ⟨_, _, hdisplay "pump.bob" (by decide)⟩),
    resolvedSource_of_reaches configuration_display (hnames "images" (by decide)).1
      (FileSystem.exists?_eq_true_iff.2 ⟨_, _, hdirectory "images" (by decide)⟩)⟩

/-- The places that these locations lead to. -/
theorem places_display :
    Names displaySurroundings.files "/displays/pump.bob" ["pump.bob", "displays"] ∧
      Names displaySurroundings.files "/displays/images" ["images", "displays"] := by
  obtain ⟨-, hpump, himages⟩ := names_display
  obtain ⟨hdisplay, -, hdirectory, -⟩ := find_display
  constructor
  · refine Action.names_of_find ?_ (hdisplay _ (by decide))
    rw [← hpump]
    exact Resolver.isUrl_absolute displaySurroundings.files "pump.bob"
  · refine Action.names_of_find ?_ (hdirectory _ (by decide))
    rw [← himages]
    exact Resolver.isUrl_absolute displaySurroundings.files "images"

theorem sourceContent_display :
    sourceContent {} displaySurroundings none "pump.bob" = .ok (Bytes.ofString "pump") ∧
      sourceContent {} displaySurroundings none "images" = .error (.io .isADirectory) := by
  obtain ⟨hpump, himages⟩ := places_display
  obtain ⟨hdisplay, -, hdirectory, -⟩ := find_display
  rw [sourceContent_eq configuration_display resolvedSource_display.1,
    sourceContent_eq configuration_display resolvedSource_display.2,
    Action.readWhole_of_names (displaySurroundings.session (Config.resolved {})) hpump,
    Action.readWhole_of_names (displaySurroundings.session (Config.resolved {})) himages]
  have hpage := FileSystem.readPlace_of_find (hdisplay "pump.bob" (by decide))
  have hfault := FileSystem.readPlace_of_find_directory (hdirectory "images" (by decide))
  exact ⟨congrArg (Except.mapError Error.io) hpage, congrArg (Except.mapError Error.io) hfault⟩

/-- A copy to another file succeeds and delivers the content. -/
theorem copy_delivers_to_other :
    let outcome := copyOutcome {} displaySurroundings "pump.bob" "tank.bob" none
    outcome.report.exitCode = 0 ∧ outcome.files.find "tank.bob" =
      .ok (["tank.bob", "displays"], .file (Bytes.ofString "pump")) := by
  have hcreate := FileSystem.createFile_of_find find_display.2.1
  have hok : (copyOutcome {} displaySurroundings "pump.bob" "tank.bob" none).report.exitCode =
      0 := by
    obtain ⟨resolved, middle, hsame, -, hcontent, hreport, -⟩ :=
      run_copy configuration_display "pump.bob" "tank.bob" none
    rw [hreport, exitCode_copyReport_eq_zero_iff]
    have htakes : middle.files.sink.Takes (Bytes.ofString "pump") :=
      Stream.takes_of_open (congrArg FileSystem.writes hsame) _
    rw [← hsame] at hcreate
    exact Action.copyResource_succeeds (hcontent.symm.trans sourceContent_display.1) hcreate htakes
  obtain ⟨resolved, content, place, delivered, hresolved, hcontent, hwalk, hfind, -, hiff, -⟩ :=
    copy_delivers_iff hok
  refine ⟨hok, ?_⟩
  obtain rfl : "/displays/pump.bob" = resolved :=
    Except.ok.inj (resolvedSource_display.1.symm.trans hresolved)
  obtain rfl : Bytes.ofString "pump" = content :=
    Except.ok.inj (sourceContent_display.1.symm.trans hcontent)
  obtain rfl : ["tank.bob", "displays"] = place :=
    Except.ok.inj ((FileSystem.createFile_eq_ok_iff.1 hcreate).1.symm.trans hwalk)
  rw [hfind, hiff.2]
  -- the source is at another place
  intro hnames
  exact absurd (Except.ok.inj (places_display.1.2.symm.trans hnames.2)) (by decide)

/-- A file that is copied onto itself is empty afterwards, though it had content and the copy says
that it succeeded. -/
theorem copy_onto_itself_empties :
    let outcome := copyOutcome {} displaySurroundings "pump.bob" "pump.bob" none
    outcome.report.exitCode = 0 ∧
      sourceContent {} displaySurroundings none "pump.bob" = .ok (Bytes.ofString "pump") ∧
      outcome.files.find "pump.bob" = .ok (["pump.bob", "displays"], .file []) ∧
      outcome.report.notes = ["Copied 0 bytes from /displays/pump.bob to pump.bob"] := by
  have hcreate := FileSystem.createFile_of_find (find_display.1 "pump.bob" (by decide))
  obtain ⟨hreport, hfiles⟩ := copy_onto_itself configuration_display resolvedSource_display.1
    places_display.1 hcreate
  intro outcome
  have hreported : outcome.report = copyReport "/displays/pump.bob" "pump.bob" false (.ok 0) :=
    hreport
  refine ⟨?_, sourceContent_display.1, ?_, ?_⟩
  · rw [hreported]
    rfl
  · rw [show outcome.files = _ from hfiles]
    exact FileSystem.find_put hcreate []
  · rw [hreported]
    rfl

/-! ## What a copy without a source leaves -/

/-- The source is a directory, and the destination can be created where no empty file is yet. -/
def Spoils (globals : Globals) (surroundings : Surroundings) (source dest : String)
    (parent : Option String) : Prop :=
  ∃ resolved above place emptied,
    resolvedSource globals surroundings parent source = .ok resolved ∧
    Names surroundings.files resolved above ∧
    surroundings.files.node? above = some .directory ∧
    surroundings.files.createFile dest = .ok (place, emptied) ∧
    surroundings.files.node? place ≠ some (.file [])

/-- Without settings no source is looked for. -/
theorem not_spoils_of_error (hconfig : (globals.configuration surroundings).result = .error error)
    (source dest : String) (parent : Option String) :
    ¬Spoils globals surroundings source dest parent := by
  rintro ⟨resolved, -, -, -, hresolved, -⟩
  rw [resolvedSource, hconfig] at hresolved
  cases hresolved

/-- Where a directory is opened and the destination can be created, it decides what is there. -/
theorem spoils_iff_of_createFile {emptied : FileSystem}
    (hresolved : resolvedSource globals surroundings parent source = .ok resolved)
    (hnames : Names surroundings.files resolved above)
    (hnode : surroundings.files.node? above = some .directory)
    (hcreate : surroundings.files.createFile dest = .ok (place, emptied)) :
    Spoils globals surroundings source dest parent ↔
      surroundings.files.node? place ≠ some (.file []) := by
  constructor
  · rintro ⟨_, _, other, _, _, _, _, hcreated, hfull⟩
    obtain ⟨rfl, -⟩ := Prod.mk.inj (Except.ok.inj (hcreate.symm.trans hcreated))
    exact hfull
  · exact fun hfull => ⟨resolved, above, place, emptied, hresolved, hnames, hnode, hcreate, hfull⟩

/-- A copy without settings, or with a source that cannot be opened or read, fails, and the
destination stays as it was, unless the source is a directory: that is opened, and found to be one
only after the destination was created, which is an empty file then. Nothing else changes. -/
theorem copy_spares_iff (dest : String)
    (hfault : sourceContent globals surroundings parent source = .error error) :
    let outcome := copyOutcome globals surroundings source dest parent
    outcome.report.exitCode ≠ 0 ∧
      (outcome.files.find dest = surroundings.files.find dest ↔
        ¬Spoils globals surroundings source dest parent) ∧
      (Spoils globals surroundings source dest parent →
        ∃ place, outcome.files.find dest = .ok (place, .file [])) ∧
      ∀ other, surroundings.files.walk dest ≠ .ok other →
        outcome.files.node? other = surroundings.files.node? other := by
  intro outcome
  cases hconfig : (globals.configuration surroundings).result with
  | error error =>
    obtain ⟨hcode, hfiles⟩ := copyOutcome_of_error hconfig source dest parent
    have hnot := not_spoils_of_error hconfig source dest parent
    have hsame : outcome.files = surroundings.files := hfiles
    rw [hsame]
    exact ⟨hcode, iff_of_true rfl hnot, fun h => absurd h hnot, fun _ _ => rfl⟩
  | ok config =>
    obtain ⟨resolved, middle, hsame, hresolved, hcontent, hreport, hfiles⟩ :=
      run_copy hconfig source dest parent
    obtain ⟨⟨failure, hfailure⟩, hleft⟩ :=
      Action.copyResource_of_unreadable dest (hcontent.symm.trans hfault)
    rw [hfailure] at hreport
    rw [hsame] at hleft
    refine ⟨?_, ?_⟩
    · rw [show outcome.report = _ from hreport]
      exact exitCode_copyReport_error failure
    obtain ⟨hkept, hno⟩ | ⟨above, place, emptied, hnames, hnode, hcreate, hemptied⟩ := hleft
    · -- nothing was created: the source did not open, or the destination could not be made
      have hnot : ¬Spoils globals surroundings source dest parent := by
        rintro ⟨other, above, place, emptied, hother, hnames, hnode, hcreate, -⟩
        rw [hresolved] at hother
        obtain rfl := Except.ok.inj hother
        exact hno above place emptied hnames hnode hcreate
      have houtcome : outcome.files = surroundings.files := hfiles.trans hkept
      rw [houtcome]
      exact ⟨iff_of_true rfl hnot, fun h => absurd h hnot, fun _ _ => rfl⟩
    · -- a directory was opened: the destination is an empty file, which it may have been before
      obtain ⟨hwalk, -, -, hput⟩ := FileSystem.createFile_eq_ok_iff.1 hcreate
      have houtcome : outcome.files = surroundings.files.put place (.file []) :=
        (hfiles.trans hemptied).trans hput
      have hfind : outcome.files.find dest = .ok (place, .file []) := by
        rw [houtcome]
        exact FileSystem.find_put hcreate []
      have hspoils := spoils_iff_of_createFile hresolved hnames hnode hcreate
      refine ⟨?_, fun _ => ⟨place, hfind⟩, fun other hother => ?_⟩
      · rw [hfind, eq_comm, FileSystem.find_iff_of_createFile hcreate, hspoils, not_not]
      · have hne : other ≠ place := by
          rintro rfl
          exact hother hwalk
        rw [houtcome, FileSystem.node?_put_of_ne hne]

/-- Where there is no source, the destination keeps its content. -/
theorem copy_spares_without_source :
    sourceContent {} displaySurroundings none "valve.bob" = .error (.io .notFound) ∧
      (copyOutcome {} displaySurroundings "valve.bob" "tank.bob" none).files.find "tank.bob" =
        .ok (["tank.bob", "displays"], .file (Bytes.ofString "tank")) := by
  obtain ⟨-, htank, -, hmissing⟩ := find_display
  have hvalve := hmissing "valve.bob" (by decide)
  obtain ⟨hcandidates, hstrip, hurl⟩ := names_display.1 "valve.bob" (by decide)
  have hreaches : (displaySurroundings.session (Config.resolved {})).reaches (.file "valve.bob") =
      false := by
    rw [Resolver.Session.reaches, Surroundings.session, FileSystem.exists?, hvalve]
    rfl
  have hresolved : resolvedSource {} displaySurroundings none "valve.bob" = .ok "valve.bob" := by
    rw [resolvedSource_eq configuration_display, hcandidates, hstrip]
    simp only [List.find?_cons, List.find?_nil, hreaches]
    rfl
  have hfault : sourceContent {} displaySurroundings none "valve.bob" =
      .error (.io .notFound) := by
    rw [sourceContent_eq configuration_display hresolved,
      Action.readWhole_of_location hurl]
    simp only [Surroundings.session, hvalve]
  obtain ⟨-, hiff, -⟩ := copy_spares_iff "tank.bob" hfault
  refine ⟨hfault, (hiff.2 ?_).trans htank⟩
  rintro ⟨resolved, above, -, -, hother, hnames, -⟩
  obtain rfl : "valve.bob" = resolved := Except.ok.inj (hresolved.symm.trans hother)
  have hopen := hnames.2
  rw [FileSystem.openFile, hvalve] at hopen
  cases hopen

/-- A directory cannot be read, and copying it empties the destination. -/
theorem copy_of_directory_empties :
    let outcome := copyOutcome {} displaySurroundings "images" "tank.bob" none
    sourceContent {} displaySurroundings none "images" = .error (.io .isADirectory) ∧
      outcome.report.exitCode ≠ 0 ∧
      displaySurroundings.files.find "tank.bob" =
        .ok (["tank.bob", "displays"], .file (Bytes.ofString "tank")) ∧
      outcome.files.find "tank.bob" = .ok (["tank.bob", "displays"], .file []) := by
  have hcreate := FileSystem.createFile_of_find find_display.2.1
  have hnode : displaySurroundings.files.node? ["images", "displays"] = some .directory := rfl
  obtain ⟨hcode, hfiles⟩ := copy_of_directory configuration_display resolvedSource_display.2
    places_display.2 hnode hcreate
  intro outcome
  refine ⟨sourceContent_display.2, hcode, find_display.2.1, ?_⟩
  rw [show outcome.files = _ from hfiles]
  exact FileSystem.find_put hcreate []

end Locator.CommandLine
