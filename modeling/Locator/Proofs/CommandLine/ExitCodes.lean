import Locator.Proofs.CommandLine.Copies
import Locator.Proofs.CommandLine.Strict
import Locator.Proofs.Resolver.WholePages

/-!
# Exit codes

What a command exits with depends on the stage at which it fails more than on the failure. Whatever
is wrong with the configuration is 7. While a name is resolved nothing is an error. From then on a
page that comes too late is 2, any other page that cannot be had is 6, and files and streams are 5.

* `run_found`: what a command works with, told from what there is when it starts
* `found_error`: what can be wrong with it
* `Classified`: how the exit code tells the ways to end apart
* `Movable`, `Copyable`: what was found can be read, and there is room for it where it goes
* `classified_cat`, `classified_copy`: writing and copying what was found
* `exit_codes`: the exit codes of the commands about resources and about paths
-/

namespace Locator.CommandLine

open Files (FileSystem)
open Resolver (Action Follows Session candidates stripFilePrefix)
open Resolver.Action (Input)

variable {globals : Globals} {surroundings : Surroundings} {settings : Settings} {name : String}
  {parent : Option String} {error : Error}

/-! ## What commands work with -/

/-- What a name resolves to, and what opening that comes to. -/
structure Found where
  resolved : String
  opened : Except Error Input

/-- What opening a resource comes to when a command starts. -/
def Surroundings.opening (surroundings : Surroundings) (settings : Settings) (resolved : String) :
    Except Error Input :=
  if Path.isUrl resolved then ((surroundings.session settings).web.page resolved).map .page
  else ((surroundings.files.openFile resolved).map .file).mapError .io

/-- What a name resolves to when a command starts: the first candidate that can be reached, or else
the name. -/
def Surroundings.resolving (surroundings : Surroundings) (settings : Settings)
    (parent : Option String) (name : String) : String :=
  let start := surroundings.session settings
  (((candidates settings parent name).find? start.reaches).map start.place).getD
    (stripFilePrefix name)

/-- What a command finds for a name. -/
def Surroundings.found (surroundings : Surroundings) (settings : Settings)
    (parent : Option String) (name : String) : Found where
  resolved := surroundings.resolving settings parent name
  opened := surroundings.opening settings (surroundings.resolving settings parent name)

/-- Whatever was read in between, opening a resource comes to the same. -/
theorem openResource_of_follows {middle : Session}
    (hfollows : Follows (surroundings.session settings) middle) (resolved : String) :
    ((Action.openResource resolved).run middle).1 = surroundings.opening settings resolved := by
  have hfiles : middle.files = surroundings.files := hfollows.files_eq
  rw [Surroundings.opening]
  cases hurl : Path.isUrl resolved with
  | true =>
    rw [Action.openResource_of_url hurl, if_pos rfl, ← hfollows.page_eq,
      ← hfollows.current.pageAt_eq middle.now, ← Action.openUrl_result hfollows.current.rest]
    rfl
  | false =>
    rw [Action.openResource_of_location hurl, if_neg Bool.false_ne_true, hfiles]
    cases surroundings.files.openFile resolved <;> rfl

/-- A command resolves the name and opens what that has led to. -/
theorem run_found (surroundings : Surroundings) (settings : Settings) (parent : Option String)
    (name : String) :
    let first := (Action.resolve settings parent name).run (surroundings.session settings)
    first.1 = surroundings.resolving settings parent name ∧
      ((Action.openResource first.1).run first.2).1 =
        (surroundings.found settings parent name).opened ∧
      first.2.files = surroundings.files := by
  obtain ⟨hresolved, hfollows⟩ :=
    Action.resolve_current (session_current surroundings settings) settings parent name
  intro first
  have hfound : first.1 = surroundings.resolving settings parent name := hresolved
  refine ⟨hfound, ?_, hfollows.files_eq⟩
  rw [Surroundings.found, ← hfound]
  exact openResource_of_follows hfollows first.1

/-- Commands ask servers, so a page that cannot be had is a failure of a reader. -/
theorem fails_of_page {url : String}
    (h : (surroundings.session settings).web.page url = .error error) :
    ∃ (reader : Http.Reader) (transport : Http.Transport), reader.Fails transport url error := by
  obtain ⟨reader, transport, hweb⟩ : ∃ reader transport,
      (surroundings.session settings).web = .served reader transport := ⟨_, _, rfl⟩
  rw [hweb, Resolver.Web.page_served] at h
  exact ⟨reader, transport, Http.Reader.outcome_error_iff.1 h⟩

/-- Opening fails with an error of a reader if a URL was found, and with one of the file system
otherwise. -/
theorem found_error (h : (surroundings.found settings parent name).opened = .error error) :
    let resolved := (surroundings.found settings parent name).resolved
    (Path.isUrl resolved = true ∧ ∃ (reader : Http.Reader) (transport : Http.Transport),
        reader.Fails transport resolved error) ∨
      Path.isUrl resolved = false ∧ ∃ cause, error = .io cause := by
  simp only [Surroundings.found, Surroundings.opening] at h ⊢
  generalize surroundings.resolving settings parent name = resolved at h ⊢
  -- a URL is fetched and a location is opened, each with its own kind of error
  cases hurl : Path.isUrl resolved with
  | true =>
    rw [hurl, if_pos rfl] at h
    cases hpage : (surroundings.session settings).web.page resolved with
    | ok content =>
      rw [hpage] at h
      cases h
    | error other =>
      rw [hpage] at h
      rw [← Except.error.inj h]
      exact .inl ⟨rfl, fails_of_page hpage⟩
  | false =>
    rw [hurl, if_neg Bool.false_ne_true] at h
    cases hopen : surroundings.files.openFile resolved with
    | ok place =>
      rw [hopen] at h
      cases h
    | error cause =>
      rw [hopen] at h
      exact .inr ⟨rfl, cause, (Except.error.inj h).symm⟩

/-! ## Codes -/

/-- The exit code of a command that moves the content of what it finds tells how far it came. -/
structure Classified (found : Found) (moves : Input → Prop) (code : Nat) : Prop where
  known : code ∈ [0, 2, 5, 6]
  success : code = 0 ↔ ∃ input, found.opened = .ok input ∧ moves input
  late_page : code = 2 ↔ Path.isUrl found.resolved = true ∧
    ∃ error, found.opened = .error error ∧ error.isTimeout = true
  page : code = 6 ↔ Path.isUrl found.resolved = true ∧
    ∃ error, found.opened = .error error ∧ error.isTimeout = false
  stream : code = 5 ↔ (Path.isUrl found.resolved = false ∧ ∃ error, found.opened = .error error) ∨
    ∃ input, found.opened = .ok input ∧ ¬moves input

theorem exitCode_ofError_of_fails {reader : Http.Reader} {transport : Http.Transport}
    {url : String} (h : reader.Fails transport url error) :
    (Failure.ofError error).exitCode = if error.isTimeout then 2 else 6 := by
  cases h <;> rfl

theorem classified_of_error {moves : Input → Prop}
    (h : (surroundings.found settings parent name).opened = .error error) :
    Classified (surroundings.found settings parent name) moves
      (Failure.ofError error).exitCode := by
  obtain ⟨hurl, reader, transport, hfails⟩ | ⟨hurl, cause, rfl⟩ := found_error h
  · rw [exitCode_ofError_of_fails hfails]
    cases htimeout : error.isTimeout <;> constructor <;> simp [h, hurl, htimeout]
  · constructor <;> simp [h, hurl, Failure.ofError, Failure.exitCode]

theorem Classified.ne_seven {found : Found} {moves : Input → Prop} {code : Nat}
    (h : Classified found moves code) : code ≠ 7 := by
  rintro rfl
  exact absurd h.known (by decide)

/-! ## Writing and copying -/

/-- What was opened can be read, and the sink takes its content to the end. -/
def Movable (files : FileSystem) (sink : Stream.Sink) (input : Input) : Prop :=
  ∃ content, input.content files = .ok content ∧ sink.Takes content

/-- What was opened can be read. -/
def Readable (files : FileSystem) (input : Input) : Prop :=
  ∃ content, input.content files = .ok content

/-- The destination can be created, what was opened can be read then, and the disk takes it. -/
def Copyable (files : FileSystem) (dest : String) (input : Input) : Prop :=
  ∃ place emptied, files.createFile dest = .ok (place, emptied) ∧
    Movable emptied emptied.sink input

/-- A sink that takes everything takes all that can be read. -/
theorem movable_iff_readable {files : FileSystem} {sink : Stream.Sink} {input : Input}
    (h : sink.receptions = []) : Movable files sink input ↔ Readable files input :=
  exists_congr fun content => and_iff_left (Stream.takes_of_open h content)

/-- What is read is decided, so only the sink has a say. -/
theorem movable_of_content {files : FileSystem} {sink : Stream.Sink} {input : Input}
    {content : Bytes} (h : input.content files = .ok content) :
    Movable files sink input ↔ sink.Takes content := by
  constructor
  · rintro ⟨other, hother, htakes⟩
    rwa [Except.ok.inj (h.symm.trans hother)]
  · exact fun htakes => ⟨content, h, htakes⟩

theorem exists_ok_map_iff {result : Except IoError Unit} {length : Nat} :
    (∃ count, result.map (fun _ => length) = .ok count) ↔ result = .ok () := by
  cases result with
  | ok _ => exact iff_of_true ⟨length, rfl⟩ rfl
  | error cause =>
    refine iff_of_false (not_exists_ok cause) ?_
    intro hresult
    cases hresult

/-- A copy succeeds if there is something to read and the sink takes it. -/
theorem copy_ok_iff_movable (files : FileSystem) (sink : Stream.Sink) (input : Input) :
    (∃ count, (Stream.copy (input.source files) sink).result = .ok count) ↔
      Movable files sink input := by
  cases hcontent : input.content files with
  | ok content =>
    rw [movable_of_content hcontent, Action.source_of_content hcontent,
      (Stream.copy_content content sink).1, exists_ok_map_iff, Stream.Sink.Takes]
  | error cause =>
    obtain ⟨rfl, hsource⟩ := Action.source_of_content_error hcontent
    have hkind : IoError.isADirectory.kind ≠ .interrupted := by decide
    rw [hsource, (Stream.copy_failure hkind [] sink).1]
    refine iff_of_false (not_exists_ok _) ?_
    rintro ⟨content, hother, -⟩
    cases hcontent.symm.trans hother

/-- Once a resource is open, moving it can only succeed or be stopped by a stream. -/
theorem classified_of_ok {found : Found} {moves : Input → Prop} {input : Input} {code : Nat}
    (h : found.opened = .ok input) (hzero : code = 0 ↔ moves input)
    (hcode : code = 0 ∨ code = 5) : Classified found moves code := by
  obtain rfl | rfl := hcode
  · have hmoved : moves input := hzero.1 rfl
    constructor <;> simp [h, hmoved]
  · have hunmoved : ¬moves input := fun hmoved => absurd (hzero.2 hmoved) (by decide)
    constructor <;> simp [h, hunmoved]

/-- What is said about a resource that was written, as far as the output took it. -/
def catReport (resolved : String) (verbose : Bool) (copied : Stream.Copied) : Report :=
  let written := copied.sink.written
  match copied.result with
  | .error cause => { output := written, failure := some (.io cause) }
  | .ok count =>
    let note := "Read " ++ toString count ++ " bytes from " ++ resolved
    { output := written, notes := if verbose then [note] else [] }

theorem exitCode_catReport (resolved : String) (verbose : Bool) (copied : Stream.Copied) :
    let code := (catReport resolved verbose copied).exitCode
    (code = 0 ↔ ∃ count, copied.result = .ok count) ∧ (code = 0 ∨ code = 5) := by
  rw [catReport]
  cases copied.result with
  | ok count => exact ⟨iff_of_true rfl ⟨count, rfl⟩, .inl rfl⟩
  | error cause =>
    have hfive : (5 : Nat) ≠ 0 := by decide
    exact ⟨iff_of_false hfive (not_exists_ok cause), .inr rfl⟩

theorem copyFrom_run (input : Input) (sink : Stream.Sink) (session : Session) :
    let copied := Stream.copy (input.source session.files) sink
    (Action.copyFrom input sink).run session =
      (copied, { session with records := session.records ++ copied.warnings }) :=
  rfl

theorem cat_run (name : String) (parent : Option String) (verbose : Bool) (output : Stream.Sink)
    (settings : Settings) (session : Session) :
    let first := (Action.resolve settings parent name).run session
    let opened := (Action.openResource first.1).run first.2
    ((cat name parent verbose output settings).run session).1 =
      match opened.1 with
      | .error error => .failed (.ofError error)
      | .ok input =>
        catReport first.1 verbose (Stream.copy (input.source opened.2.files) output) := by
  rw [cat, Action.run_bind]
  generalize (Action.resolve settings parent name).run session = first
  simp only [Action.run_bind]
  generalize (Action.openResource first.1).run first.2 = attempt
  obtain ⟨opened, after⟩ := attempt
  cases opened with
  | error error => rfl
  | ok input =>
    simp only [Action.run_bind, copyFrom_run, catReport]
    generalize Stream.copy (input.source after.files) output = copied
    cases copied.result <;> rfl

theorem classified_cat (surroundings : Surroundings) (settings : Settings) (name : String)
    (parent : Option String) (verbose : Bool) (output : Stream.Sink) :
    Classified (surroundings.found settings parent name) (Movable surroundings.files output)
      ((cat name parent verbose output settings).run
        (surroundings.session settings)).1.exitCode := by
  obtain ⟨-, hopened, hfiles⟩ := run_found surroundings settings parent name
  rw [cat_run]
  simp only [hopened, Action.openResource_files, hfiles]
  cases hfound : (surroundings.found settings parent name).opened with
  | error error => exact classified_of_error hfound
  | ok input =>
    obtain ⟨hzero, hcode⟩ := exitCode_catReport
      ((Action.resolve settings parent name).run (surroundings.session settings)).1 verbose
      (Stream.copy (input.source surroundings.files) output)
    rw [copy_ok_iff_movable] at hzero
    exact classified_of_ok hfound hzero hcode

/-- Where the destination can be created, the rest of a copy decides. -/
theorem copyable_iff {files emptied : FileSystem} {dest : String} {place : Files.Place}
    {input : Input} (hcreate : files.createFile dest = .ok (place, emptied)) :
    Copyable files dest input ↔ Movable emptied files.sink input := by
  obtain ⟨-, -, -, hemptied⟩ := FileSystem.createFile_eq_ok_iff.1 hcreate
  have hsink : emptied.sink = files.sink := by
    rw [hemptied]
    rfl
  rw [← hsink]
  constructor
  · rintro ⟨place', emptied', hcreated, hmovable⟩
    cases hcreate.symm.trans hcreated
    exact hmovable
  · exact fun hmovable => ⟨place, emptied, hcreate, hmovable⟩

/-- A copy of what could be opened succeeds if that is copyable, and fails with a stream if not. -/
theorem copied_of_ends {session : Session} {dest : String} {input : Input}
    {result : Except Error Nat} {files : FileSystem}
    (hends : Action.CopyEnds session name dest result files)
    (hopen : ((Action.openResource name).run session).1 = .ok input) :
    ((∃ count, result = .ok count) ↔ Copyable session.files dest input) ∧
      ((∃ count, result = .ok count) ∨ ∃ cause, result = .error (.io cause)) := by
  cases hends with
  | unopened hother => cases hopen.symm.trans hother
  | uncreated hother hcreate =>
    refine ⟨iff_of_false (not_exists_ok _) ?_, .inr ⟨_, rfl⟩⟩
    rintro ⟨place, emptied, hcreated, -⟩
    cases hcreate.symm.trans hcreated
  | unread hother hcreate hread =>
    obtain rfl := Except.ok.inj (hopen.symm.trans hother)
    refine ⟨iff_of_false (not_exists_ok _) ?_, .inr ⟨_, rfl⟩⟩
    rw [copyable_iff hcreate]
    rintro ⟨content, hcontent, -⟩
    cases hread.symm.trans hcontent
  | @moved _ place emptied content written sink hother hcreate hread hwrite =>
    obtain rfl := Except.ok.inj (hopen.symm.trans hother)
    have htakes : session.files.sink.Takes content ↔ written = .ok () := by
      rw [Stream.Sink.Takes, hwrite]
    rw [copyable_iff hcreate, movable_of_content hread, htakes]
    cases written with
    | ok _ => exact ⟨iff_of_true ⟨_, rfl⟩ rfl, .inl ⟨_, rfl⟩⟩
    | error cause =>
      refine ⟨iff_of_false (not_exists_ok _) ?_, .inr ⟨_, rfl⟩⟩
      intro hok
      cases hok

theorem exitCode_copyReport_known {resolved dest : String} {quiet : Bool}
    {result : Except Error Nat}
    (h : (∃ count, result = .ok count) ∨ ∃ cause, result = .error (.io cause)) :
    (copyReport resolved dest quiet result).exitCode = 0 ∨
      (copyReport resolved dest quiet result).exitCode = 5 := by
  obtain ⟨count, rfl⟩ | ⟨cause, rfl⟩ := h
  · exact .inl rfl
  · exact .inr rfl

theorem classified_copy (surroundings : Surroundings) (settings : Settings) (source dest : String)
    (parent : Option String) (quiet : Bool) :
    Classified (surroundings.found settings parent source) (Copyable surroundings.files dest)
      ((copy source dest parent quiet settings).run
        (surroundings.session settings)).1.exitCode := by
  obtain ⟨-, hopened, hfiles⟩ := run_found surroundings settings parent source
  rw [copy_run]
  generalize (Action.resolve settings parent source).run (surroundings.session settings) = first
    at hopened hfiles ⊢
  have hends := Action.copyResource_ends first.1 dest first.2
  rw [← hfiles]
  show Classified _ _
    (copyReport first.1 dest quiet ((Action.copyResource first.1 dest).run first.2).1).exitCode
  cases hopen : ((Action.openResource first.1).run first.2).1 with
  | error error =>
    rw [hends.error_of_unopened hopen]
    exact classified_of_error (hopened.symm.trans hopen)
  | ok input =>
    obtain ⟨hcopied, hknown⟩ := copied_of_ends hends hopen
    refine classified_of_ok (hopened.symm.trans hopen) ?_ (exitCode_copyReport_known hknown)
    rw [exitCode_copyReport_eq_zero_iff, hcopied]

/-! ## Whole commands -/

theorem exitCode_withResources_of_error
    (h : (globals.configuration surroundings).result = .error error)
    (use : Settings → Action Report) :
    (withResources globals surroundings use).report.exitCode = 7 := by
  rw [(withResources_of_error h use).1]
  rfl

/-- The configuration is what 7 stands for, and it is the first thing that is looked at. -/
theorem exitCode_withResources (globals : Globals) (found : Settings → Found)
    {moves : Input → Prop} (use : Settings → Action Report)
    (h : ∀ settings, Classified (found settings) moves
      ((use settings).run (surroundings.session settings)).1.exitCode) :
    ((withResources globals surroundings use).report.exitCode = 7 ↔
        ∃ error, (globals.configuration surroundings).result = .error error) ∧
      ∀ config, (globals.configuration surroundings).result = .ok config →
        Classified (found config.resolved) moves
          (withResources globals surroundings use).report.exitCode := by
  cases hconfig : (globals.configuration surroundings).result with
  | error error =>
    exact ⟨iff_of_true (exitCode_withResources_of_error hconfig use) ⟨error, rfl⟩, nofun⟩
  | ok config =>
    rw [(withResources_of_ok hconfig use).1]
    refine ⟨iff_of_false (h config.resolved).ne_seven nofun, fun other hother => ?_⟩
    rw [← Except.ok.inj hother]
    exact h config.resolved

/-- Looking for the name comes to nothing worse than that there is no answer. -/
theorem exitCode_resolve (name : String) (parent : Option String) (strict : Bool)
    (settings : Settings) (session : Session) :
    let code := ((resolve name parent strict settings).run session).1.exitCode
    code = 0 ∨ code = 1 ∧ strict = true := by
  cases strict with
  | false =>
    rw [resolve_plain_run]
    exact .inl rfl
  | true =>
    rw [resolve_strict_run]
    simp only
    split
    · exact .inl rfl
    · exact .inr ⟨rfl, trivial⟩

/-- Resolving a name that is not empty is working with resources. -/
theorem run_resolve (hname : name ≠ "") (strict : Bool) :
    Invocation.run { globals, command := .resolve name parent strict } surroundings =
      withResources globals surroundings (resolve name parent strict) := by
  have hempty : name.isEmpty = false := by
    rwa [← Bool.not_eq_true, String.isEmpty_iff]
  simp only [Invocation.run, hempty, Bool.false_eq_true, if_false]

/-- Resolving asks for a name, then for the configuration, and then only whether there is an
answer. -/
theorem exitCode_run_resolve (globals : Globals) (surroundings : Surroundings) (name : String)
    (parent : Option String) (strict : Bool) :
    let code := (Invocation.run { globals, command := .resolve name parent strict }
      surroundings).report.exitCode
    let built := (globals.configuration surroundings).result
    (code = 4 ↔ name = "") ∧
      (name ≠ "" → (code = 7 ↔ ∃ error, built = .error error) ∧
        ∀ config, built = .ok config → code = 0 ∨ code = 1 ∧ strict = true) := by
  intro code built
  by_cases hname : name = ""
  · subst hname
    exact ⟨iff_of_true rfl rfl, fun hname => absurd rfl hname⟩
  · -- an empty name is refused before the settings are read
    have hcode : code =
        (withResources globals surroundings (resolve name parent strict)).report.exitCode := by
      show (Invocation.run _ surroundings).report.exitCode = _
      rw [run_resolve hname]
    rw [hcode]
    cases hconfig : built with
    | error error =>
      rw [exitCode_withResources_of_error hconfig]
      exact ⟨iff_of_false (by decide) hname, fun _ => ⟨iff_of_true rfl ⟨error, rfl⟩, nofun⟩⟩
    | ok config =>
      rw [(withResources_of_ok hconfig _).1]
      have hexit := exitCode_resolve name parent strict config.resolved
        (surroundings.session config.resolved)
      generalize Report.exitCode _ = exit at hexit ⊢
      have hother : exit ≠ 4 ∧ exit ≠ 7 := by omega
      exact ⟨iff_of_false hother.1 hname, fun _ =>
        ⟨iff_of_false hother.2 nofun, fun _ _ => hexit⟩⟩

/-- The command is about paths only. -/
def Command.IsAlgebra : Command → Prop
  | .normalize _ | .directory _ | .relative _ _ | .combine _ _ => True
  | _ => False

/-- What the commands about paths say depends on nothing around them. -/
theorem run_of_isAlgebra {command : Command} (h : command.IsAlgebra) :
    ∃ text, ∀ globals surroundings, Invocation.run { globals, command } surroundings =
      { report := .line text, files := surroundings.files } := by
  cases command with
  | normalize path => exact ⟨_, fun _ _ => rfl⟩
  | directory path => exact ⟨_, fun _ _ => rfl⟩
  | relative parent path => exact ⟨_, fun _ _ => rfl⟩
  | combine path parent => exact ⟨_, fun _ _ => rfl⟩
  | _ => exact absurd h id

/-- How every command about resources or paths exits. A command about resources without settings
exits with 7, unless it was given no name to resolve, which is 4. Resolving a name never fails
otherwise: it may only end without an answer, if a strict one is wanted. Writing and copying a
resource tell the stage that failed, also where an output or the disk does not take what is written.
Commands about paths depend on nothing and never fail. -/
theorem exit_codes (globals : Globals) (surroundings : Surroundings) :
    let code (command : Command) :=
      (Invocation.run { globals, command } surroundings).report.exitCode
    let built := (globals.configuration surroundings).result
    (∀ name parent strict,
        (code (.resolve name parent strict) = 4 ↔ name = "") ∧
          (name ≠ "" →
            (code (.resolve name parent strict) = 7 ↔ ∃ error, built = .error error) ∧
              ∀ config, built = .ok config → code (.resolve name parent strict) = 0 ∨
                code (.resolve name parent strict) = 1 ∧ strict = true)) ∧
      (∀ name parent,
        (code (.cat name parent) = 7 ↔ ∃ error, built = .error error) ∧
          ∀ config, built = .ok config →
            Classified (surroundings.found config.resolved parent name)
              (Readable surroundings.files) (code (.cat name parent))) ∧
      (∀ name parent (output : Stream.Sink),
        let codeOver := (withResources globals surroundings
          (cat name parent globals.verbose output)).report.exitCode
        (codeOver = 7 ↔ ∃ error, built = .error error) ∧
          ∀ config, built = .ok config →
            Classified (surroundings.found config.resolved parent name)
              (Movable surroundings.files output) codeOver) ∧
      (∀ source dest parent,
        (code (.copy source dest parent) = 7 ↔ ∃ error, built = .error error) ∧
          ∀ config, built = .ok config →
            Classified (surroundings.found config.resolved parent source)
              (Copyable surroundings.files dest) (code (.copy source dest parent))) ∧
      ∀ command, command.IsAlgebra → code command = 0 ∧ ∀ globals' surroundings',
        let outcome := Invocation.run { globals := globals', command } surroundings'
        outcome.report = (Invocation.run { globals, command } surroundings).report ∧
          outcome.files = surroundings'.files ∧ outcome.requests = [] := by
  intro code built
  have hcat (name : String) (parent : Option String) (output : Stream.Sink) :=
    exitCode_withResources globals (surroundings.found · parent name)
      (cat name parent globals.verbose output)
      fun settings => classified_cat surroundings settings name parent globals.verbose output
  refine ⟨fun name parent strict => ?_, fun name parent => ?_, hcat,
    fun source dest parent => ?_, fun command hcommand => ?_⟩
  · exact exitCode_run_resolve globals surroundings name parent strict
  · have hopen : Movable surroundings.files {} = Readable surroundings.files :=
      funext fun input => propext (movable_iff_readable rfl)
    rw [← hopen]
    exact hcat name parent {}
  · exact exitCode_withResources globals (surroundings.found · parent source)
      (copy source dest parent globals.quiet)
      fun settings => classified_copy surroundings settings source dest parent globals.quiet
  · -- path algebra prints a text that depends on nothing but the command
    obtain ⟨text, hrun⟩ := run_of_isAlgebra hcommand
    refine ⟨?_, fun globals' surroundings' => ?_⟩
    · show (Invocation.run { globals, command } surroundings).report.exitCode = 0
      rw [hrun]
      rfl
    · rw [hrun globals' surroundings', hrun globals surroundings]
      exact ⟨rfl, rfl, rfl⟩

/-! A page that nobody serves, one whose server is silent, and a disk that is full. -/

/-- The displays in a network where connections are made and nothing comes over them. -/
def silentSurroundings : Surroundings :=
  { displaySurroundings with network := fun _ => some { bytes := [], stalls := true } }

/-- A page that cannot be had is what its URL resolves to, and it does not open. -/
theorem found_pumpUrl {surroundings : Surroundings}
    (hfiles : surroundings.files = displaySurroundings.files)
    (hpage : (surroundings.session (Config.resolved {})).web.page Resolver.pumpUrl = .error error) :
    let found := surroundings.found (Config.resolved {}) none Resolver.pumpUrl
    Path.isUrl found.resolved = true ∧ found.opened = .error error := by
  have hcandidates : Resolver.candidates (Config.resolved {}) none Resolver.pumpUrl =
      [.page Resolver.pumpUrl, .page Resolver.pumpUrl, .file Resolver.pumpUrl,
        .file Resolver.pumpUrl] ∧
      Resolver.stripFilePrefix Resolver.pumpUrl = Resolver.pumpUrl := by
    decide +kernel
  have hmissing : displaySurroundings.files.find Resolver.pumpUrl = .error .notFound := by
    simp only [FileSystem.find, FileSystem.walk, FileSystem.checkLocation_eq]
    decide +kernel
  obtain ⟨hcandidates, hstrip⟩ := hcandidates
  obtain ⟨-, -, hurl⟩ := Resolver.pumpUrl_page
  have hresolved : surroundings.resolving (Config.resolved {}) none Resolver.pumpUrl =
      Resolver.pumpUrl := by
    -- neither a page nor a file is there, so the name stays as it is
    have hnopage : (surroundings.session (Config.resolved {})).reaches (.page Resolver.pumpUrl) =
        false := by
      rw [Resolver.Session.reaches, hpage]
      rfl
    have hnofile : (surroundings.session (Config.resolved {})).reaches (.file Resolver.pumpUrl) =
        false := by
      rw [Resolver.Session.reaches, Surroundings.session, hfiles, FileSystem.exists?, hmissing]
      rfl
    rw [Surroundings.resolving, hcandidates, hstrip]
    simp [hnopage, hnofile]
  rw [Surroundings.found, hresolved, Surroundings.opening, if_pos hurl, hpage]
  exact ⟨hurl, rfl⟩

/-- Without a connection there is no page. -/
theorem page_displaySurroundings :
    ∃ fault, (displaySurroundings.session (Config.resolved {})).web.page Resolver.pumpUrl =
      .error (.fetch Resolver.pumpUrl fault) := by
  obtain ⟨hparse, hrequestable, -⟩ := Resolver.pumpUrl_page
  refine ⟨.noReply Resolver.pumpAddress.text, ?_⟩
  rw [Surroundings.session, Resolver.Web.page_served]
  refine Http.Reader.Fails.outcome_eq (.unanswered ⟨_, hparse, ?_⟩)
  rw [Http.Network.transportFor, if_neg (by decide), hrequestable, Http.Network.exchange]
  rfl

/-- With a connection that stays silent, the page does not come in time. -/
theorem page_silentSurroundings :
    ∃ millis, (silentSurroundings.session (Config.resolved {})).web.page Resolver.pumpUrl =
      .error (.timeout Resolver.pumpUrl millis) := by
  obtain ⟨hparse, hrequestable, -⟩ := Resolver.pumpUrl_page
  have hreply : Http.Reply.receive { bytes := [], stalls := true } = .waiting := by
    rw [Http.Reply.receive]
    rfl
  refine ⟨min (Config.resolved {}).readTimeout.toMillis (UInt64.size - 1), ?_⟩
  rw [Surroundings.session, Resolver.Web.page_served]
  refine Http.Reader.Fails.outcome_eq (.late ⟨_, hparse, ?_⟩)
  rw [Http.Network.transportFor, if_neg (by decide), hrequestable, Http.Network.exchange]
  simp only [silentSurroundings, hreply]
  rfl

theorem resolving_of_reaches {candidate : Resolver.Candidate} {rest : List Resolver.Candidate}
    (hcandidates : candidates settings parent name = candidate :: rest)
    (hreaches : (surroundings.session settings).reaches candidate = true) :
    surroundings.resolving settings parent name =
      (surroundings.session settings).place candidate := by
  rw [Surroundings.resolving, hcandidates, List.find?_cons_of_pos hreaches]
  rfl

theorem opened_of_names {resolved : String} {place : Files.Place}
    (hresolved : surroundings.resolving settings parent name = resolved)
    (hnames : Action.Names surroundings.files resolved place) :
    (surroundings.found settings parent name).opened = .ok (.file place) := by
  rw [Surroundings.found, hresolved, Surroundings.opening, hnames.1, if_neg Bool.false_ne_true,
    hnames.2]
  rfl

/-- A directory opens and cannot be read. -/
theorem found_images :
    ∃ input, (displaySurroundings.found (Config.resolved {}) none "images").opened = .ok input ∧
      ¬Readable displaySurroundings.files input := by
  obtain ⟨hnames, -, himages⟩ := names_display
  obtain ⟨-, -, hdirectory, -⟩ := find_display
  have hreaches : (displaySurroundings.session (Config.resolved {})).reaches (.file "images") =
      true := FileSystem.exists?_eq_true_iff.2 ⟨_, _, hdirectory "images" (by decide)⟩
  have hresolved := resolving_of_reaches (hnames "images" (by decide)).1 hreaches
  refine ⟨_, opened_of_names (hresolved.trans himages) places_display.2, ?_⟩
  rintro ⟨content, hcontent⟩
  cases hcontent

/-- The displays on a disk without any room. -/
def fullSurroundings : Surroundings :=
  { displaySurroundings with
    files := {
      displaySurroundings.files with
      writes := [.refuse ⟨.other "StorageFull", "No space left on device (os error 28)"⟩] } }

theorem find_fullSurroundings (location : String) :
    fullSurroundings.files.find location = displaySurroundings.files.find location :=
  rfl

/-- A display that can be read does not fit on that disk again. -/
theorem found_pump_full :
    ∃ input, (fullSurroundings.found (Config.resolved {}) none "pump.bob").opened = .ok input ∧
      ¬Copyable fullSurroundings.files "tank.bob" input := by
  obtain ⟨hnames, hpump, -⟩ := names_display
  obtain ⟨hdisplay, htank, -⟩ := find_display
  have hreaches : (fullSurroundings.session (Config.resolved {})).reaches (.file "pump.bob") =
      true :=
    FileSystem.exists?_eq_true_iff.2
      ⟨_, _, (find_fullSurroundings _).trans (hdisplay "pump.bob" (by decide))⟩
  have hresolved := resolving_of_reaches (hnames "pump.bob" (by decide)).1 hreaches
  refine ⟨_, opened_of_names (hresolved.trans hpump) places_display.1, ?_⟩
  rw [copyable_iff (FileSystem.createFile_of_find ((find_fullSurroundings _).trans htank))]
  rintro ⟨content, hcontent, htakes⟩
  rw [Stream.takes_iff_of_refusal rfl (by decide)] at htakes
  subst htakes
  exact absurd hcontent (by decide)

/-- The same page is 6 where no connection is made and 2 where the server is silent. A directory,
which opens and cannot be read, is 5, and so is a copy that finds no room. A name that is missing is
4. -/
theorem exit_codes_of_displays :
    let code (surroundings : Surroundings) (command : Command) :=
      (Invocation.run { globals := {}, command } surroundings).report.exitCode
    code displaySurroundings (.resolve "" none true) = 4 ∧
      code displaySurroundings (.cat "images" none) = 5 ∧
      code fullSurroundings (.copy "pump.bob" "tank.bob" none) = 5 ∧
      code displaySurroundings (.cat Resolver.pumpUrl none) = 6 ∧
      code silentSurroundings (.cat Resolver.pumpUrl none) = 2 ∧
      code silentSurroundings (.combine "pump.bob" none) = 0 := by
  intro code
  obtain ⟨hresolve, hcat, -⟩ := exit_codes {} displaySurroundings
  obtain ⟨-, hcatSilent, -, -, halgebra⟩ := exit_codes {} silentSurroundings
  obtain ⟨-, -, -, hcopyFull, -⟩ := exit_codes {} fullSurroundings
  have hdirectory := (hcat "images" none).2 {} configuration_display
  have hfull := (hcopyFull "pump.bob" "tank.bob" none).2 {}
    (configuration_of_find rfl rfl find_fullSurroundings)
  have hunserved := (hcat Resolver.pumpUrl none).2 {} configuration_display
  have hlate := (hcatSilent Resolver.pumpUrl none).2 {}
    (configuration_of_find rfl rfl fun _ => rfl)
  obtain ⟨fault, hpage⟩ := page_displaySurroundings
  obtain ⟨millis, hlatePage⟩ := page_silentSurroundings
  obtain ⟨hurl, hopened⟩ := found_pumpUrl rfl hpage
  have hfiles : silentSurroundings.files = displaySurroundings.files := rfl
  obtain ⟨hlateUrl, hlateOpened⟩ := found_pumpUrl hfiles hlatePage
  refine ⟨(hresolve "" none true).1.2 rfl, hdirectory.stream.2 (.inr found_images),
    hfull.stream.2 (.inr found_pump_full), hunserved.page.2 ⟨hurl, _, hopened, rfl⟩,
    hlate.late_page.2 ⟨hlateUrl, _, hlateOpened, rfl⟩,
    (halgebra (.combine "pump.bob" none) trivial).1⟩

end Locator.CommandLine
