import Locator.Proofs.Files.Absolute
import Locator.Proofs.Resolver.Resolution
import Locator.Proofs.Stream.Whole

/-!
# Reading what was found

A page that is found is in the cache, so it can be opened and read at once. A location is found when
there is something at it; whether that can be read is another matter, because a directory can be
opened like a file and then hands out nothing but a failure.

* `readWhole_of_url`, `readWhole_of_location`: opening a resource and reading it to the end
* `find_existing`: what is at a location is found without looking at the web
* `readWhole_absolute_iff`: when the absolute form of a location can be read
* `found_readable_iff`: which of the things that are found can be read
-/

namespace Locator.Resolver

open Files (FileSystem)

/-- Opens a resource and reads it to the end. -/
def Action.readWhole (name : String) : Action (Except Error Bytes) := do
  match ← openResource name with
  | .error error => return .error error
  | .ok input => return (input.source (← get).files).readAll.mapError .io

namespace Action

variable {session : Session} {name location : String} {content : Bytes}

/-! ## Reading resources -/

theorem openResource_of_url (h : Path.isUrl name = true) (session : Session) :
    (openResource name).run session =
      let (result, after) := (openUrl name).run session
      (result.map .page, after) := by
  simp only [openResource, h, if_true]
  rfl

theorem openResource_of_location (h : Path.isUrl name = false) (session : Session) :
    (openResource name).run session =
      match session.files.openFile name with
      | .ok place => (.ok (.file place), session)
      | .error cause => (.error (.io cause), session) := by
  simp only [openResource, h, Bool.false_eq_true, if_false, run_bind]
  show (match session.files.openFile name with
    | .ok place => _
    | .error cause => _, session) = _
  cases session.files.openFile name <;> rfl

/-- A page that can be opened can be read: all of it is there. -/
theorem readWhole_of_url (h : Path.isUrl name = true) (session : Session) :
    ((readWhole name).run session).1 = ((openUrl name).run session).1 := by
  rw [readWhole, run_bind, openResource_of_url h]
  generalize (openUrl name).run session = opened
  obtain ⟨result, after⟩ := opened
  cases result with
  | error error => rfl
  | ok content =>
    show ((Input.page content).source after.files).readAll.mapError Error.io = .ok content
    rw [Input.source, Stream.readAll_ofBytes]
    rfl

/-- What reading a location gives is decided by what is there. -/
theorem readWhole_of_location (h : Path.isUrl name = false) (session : Session) :
    ((readWhole name).run session).1 =
      match session.files.find name with
      | .ok (_, .file content) => .ok content
      | .ok (_, .directory) => .error (.io .isADirectory)
      | .error cause => .error (.io cause) := by
  rw [readWhole, run_bind, openResource_of_location h, FileSystem.openFile]
  cases hfind : session.files.find name with
  | error cause => rfl
  | ok found =>
    obtain ⟨place, node⟩ := found
    obtain ⟨-, hnode, -⟩ := FileSystem.find_eq_ok_iff.1 hfind
    show ((Input.file place).source session.files).readAll.mapError Error.io = _
    rw [Input.source, FileSystem.readPlace, hnode]
    -- a directory opens too, and says what it is when it is read
    cases node with
    | file content =>
      show (Stream.Source.ofBytes content).readAll.mapError Error.io = _
      rw [Stream.readAll_ofBytes]
      rfl
    | directory =>
      show (Stream.Source.readAll [.failure .isADirectory]).mapError Error.io = _
      rw [Stream.readAll_failure (by decide)]
      rfl

end Action

/-! ## Found resources -/

/-- A location that something is at is found without looking at the web. -/
theorem Action.find_existing {session : Session} {parent : Option String} {name : String}
    (hname : Path.isUrl name = false)
    (hcombined : Path.isUrl (Path.combine parent name) = false)
    (h : session.files.exists? name = true) :
    (find parent name).run session = (some (session.files.absolute name), session) := by
  have hcandidates : candidatesFor parent name =
      [name, Path.combine parent name].map .file := by
    simp [candidatesFor, hname, hcombined]
  rw [find_run, hcandidates, firstOf_files, List.find?_cons_of_pos h]
  rfl

/-- An absolute location is no URL. -/
theorem isUrl_absolute (files : FileSystem) (location : String) :
    Path.isUrl (files.absolute location) = false := by
  have hroot := Files.isRooted_absolute
    (FileSystem.isRooted_locationOf files.workingDirectory) location.toList
  rw [← FileSystem.toList_absolute, Files.isRooted, beq_iff_eq] at hroot
  rw [← Bool.not_eq_true]
  intro hurl
  obtain ⟨scheme, tail, htext, rfl | rfl⟩ := Path.isUrl_iff.1 hurl
  · rw [htext] at hroot
    cases hroot
  · rw [htext] at hroot
    cases hroot

/-- What is at a location can be read under its absolute form if it is a file and the system takes
that form. -/
theorem Action.readWhole_absolute_iff {session after : Session} {location : String}
    {place : Files.Place} {node : Files.Node} (here : session.files.HasWorkingDirectory)
    (hfiles : after.files = session.files)
    (hfind : session.files.find location = .ok (place, node)) :
    (∃ content, ((readWhole (session.files.absolute location)).run after).1 = .ok content) ↔
      (session.files.absolute location).utf8ByteSize ≤ Files.maxLocation ∧
        ∃ content, node = .file content := by
  rw [readWhole_of_location (isUrl_absolute session.files location), hfiles,
    FileSystem.find_absolute here hfind]
  by_cases hsize : (session.files.absolute location).utf8ByteSize ≤ Files.maxLocation
  · rw [if_pos hsize]
    cases node with
    | file content => exact iff_of_true ⟨content, rfl⟩ ⟨hsize, content, rfl⟩
    | directory =>
      -- it is opened, and then the first read fails
      refine iff_of_false ?_ ?_
      · rintro ⟨content, h⟩
        cases h
      · rintro ⟨-, content, h⟩
        cases h
  · rw [if_neg hsize]
    refine iff_of_false ?_ fun h => hsize h.1
    rintro ⟨content, h⟩
    cases h

/-- A page that is found can be opened and read right afterwards. A location that is found can be
read if and only if it is the one of a file and the system takes its absolute form; so a directory
is found and cannot be read. -/
theorem found_readable_iff (parent : Option String) (name : String) {session : Session}
    {found : String} (rest : session.cache.AtRest) (here : session.files.HasWorkingDirectory)
    (hfound : ((Action.find parent name).run session).1 = some found) :
    let after := ((Action.find parent name).run session).2
    ∃ tried candidate, session.Leads (candidatesFor parent name) tried (some candidate) ∧
      found = session.place candidate ∧
      ((∃ content, ((Action.readWhole found).run after).1 = .ok content) ↔
        match candidate with
        | .page _ => True
        | .file location => found.utf8ByteSize ≤ Files.maxLocation ∧
          ∃ place content, session.files.find location = .ok (place, .file content)) := by
  intro after
  obtain ⟨tried, found?, hleads, hresult, hreads, hfiles⟩ := Action.find_leads rest parent name
  rw [hfound] at hresult
  obtain ⟨candidate, rfl, hplace⟩ := Option.map_eq_some_iff.1 hresult.symm
  refine ⟨tried, candidate, hleads, hplace.symm, ?_⟩
  subst hplace
  cases candidate with
  | page url =>
    -- the page is still fresh, so opening it gives what is in the cache
    obtain ⟨entry, hentry, hfresh, -⟩ := hreads.stored hleads
    have hget : after.cache.get? url after.now = some entry.value := by
      apply Cache.get?_of_entryOf? hentry
      rwa [hreads.ttl_eq]
    have hurl : Path.isUrl url = true := isUrl_of_mem_candidatesFor hleads.mem
    rw [iff_true]
    refine ⟨entry.value, ?_⟩
    show ((Action.readWhole url).run after).1 = .ok entry.value
    rw [Action.readWhole_of_url hurl, Action.openUrl_of_fresh hreads.rest hget]
  | file location =>
    obtain ⟨place, node, hfind⟩ := FileSystem.exists?_eq_true_iff.1 (hleads.opened _ rfl)
    refine (Action.readWhole_absolute_iff here hfiles hfind).trans (and_congr_right fun _ => ?_)
    rw [hfind]
    constructor
    · rintro ⟨content, rfl⟩
      exact ⟨place, content, rfl⟩
    · rintro ⟨other, content, h⟩
      exact ⟨content, (Prod.mk.inj (Except.ok.inj h)).2⟩

/-- A session with a directory next to a display. -/
def directorySession : Session where
  files := { entries := [(["d"], .directory), (["x.bob"], .file [1])] }
  cache := { ttl := .ofSeconds 60 }
  web := .known fun url => .error (.httpStatus url 404)

theorem find_display : directorySession.files.find "x.bob" = .ok (["x.bob"], .file [1]) := by
  refine FileSystem.find_eq_ok_iff.2 ⟨?_, by decide +kernel, by decide +kernel⟩
  rw [FileSystem.walk_of_checkLocation (FileSystem.checkLocation_eq_ok_iff.2 (by decide +kernel))]
  decide +kernel

theorem find_directory : directorySession.files.find "d" = .ok (["d"], .directory) := by
  refine FileSystem.find_eq_ok_iff.2 ⟨?_, by decide +kernel, fun _ => rfl⟩
  rw [FileSystem.walk_of_checkLocation (FileSystem.checkLocation_eq_ok_iff.2 (by decide +kernel))]
  decide +kernel

theorem directorySession_hasWorkingDirectory : directorySession.files.HasWorkingDirectory where
  names name hname := by cases hname
  there place hplace := by
    rw [List.suffix_nil.1 hplace]
    rfl

/-- A file that is found can be read. -/
theorem found_readable_file :
    directorySession.cache.AtRest ∧ directorySession.files.HasWorkingDirectory ∧
      ((Action.find none "x.bob").run directorySession).1 = some "/x.bob" ∧
      ∃ content, ((Action.readWhole "/x.bob").run
        ((Action.find none "x.bob").run directorySession).2).1 = .ok content := by
  have rest : directorySession.cache.AtRest := Cache.atRest_empty _
  have hexists : directorySession.files.exists? "x.bob" = true :=
    FileSystem.exists?_eq_true_iff.2 ⟨_, _, find_display⟩
  have hfound : ((Action.find none "x.bob").run directorySession).1 = some "/x.bob" := by
    rw [Action.find_existing (by decide +kernel) (by decide +kernel) hexists]
    decide +kernel
  obtain ⟨tried, candidate, hleads, -, hiff⟩ :=
    found_readable_iff none "x.bob" rest directorySession_hasWorkingDirectory hfound
  refine ⟨rest, directorySession_hasWorkingDirectory, hfound, hiff.2 ?_⟩
  have hcandidates : candidatesFor none "x.bob" = [.file "x.bob", .file "x.bob"] := by
    decide +kernel
  have hcandidate : candidate = .file "x.bob" := by
    have hmem := hleads.mem
    rw [hcandidates] at hmem
    simpa using hmem
  subst hcandidate
  exact ⟨by decide, ["x.bob"], [1], find_display⟩

/-- A directory is found, and reading it fails. -/
theorem directory_found_unreadable :
    ((Action.find none "d").run directorySession).1 = some "/d" ∧
      ((Action.readWhole "/d").run ((Action.find none "d").run directorySession).2).1 =
        .error (.io .isADirectory) := by
  have hexists : directorySession.files.exists? "d" = true :=
    FileSystem.exists?_eq_true_iff.2 ⟨_, _, find_directory⟩
  have habsolute : directorySession.files.absolute "d" = "/d" := by decide +kernel
  have hfind := FileSystem.find_absolute directorySession_hasWorkingDirectory find_directory
  rw [habsolute, if_pos (by decide)] at hfind
  rw [Action.find_existing (by decide +kernel) (by decide +kernel) hexists]
  refine ⟨congrArg some habsolute, ?_⟩
  rw [Action.readWhole_of_location (by decide +kernel), hfind]

end Locator.Resolver
