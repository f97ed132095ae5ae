import Locator.Proofs.Files.Writing
import Locator.Proofs.Resolver.Again
import Locator.Proofs.Resolver.Reading
import Locator.Proofs.Stream.Pieces

/-!
# Copying a resource to a file

The source is opened first and read last; in between the destination is created, which empties what
was there. So a source that cannot be opened leaves the files as they are, one that opens and cannot
be read leaves an empty file behind, and a source that is where the destination is has lost its
content when it is read. Where the disk does not take all of a content, a front of it is left.

* `readWhole_eq`: reading a resource is opening it and taking its content
* `copyResource_ends`: the result of a copy and the files afterwards
* `copyResource_ok`, `copyResource_writes`: what a copy delivers, and what it writes
* `copyResource_succeeds`, `copyResource_unfinished`: whether the disk takes it, and what is left
* `copyResource_of_unreadable`: what a source that cannot be read does to the destination
* `copyResource_directory`, `copyResource_self`: what copies of a directory, and of a file to where
  it is, do to the destination
-/

namespace Locator.Resolver

open Files (FileSystem Place)

/-! ## The content of what is open -/

namespace Action

variable {session : Session} {name dest : String} {files emptied : FileSystem} {place : Place}
  {cause : IoError} {error : Error} {input : Input}

/-- A name is the one of a place on disk. -/
def Names (files : FileSystem) (name : String) (place : Place) : Prop :=
  Path.isUrl name = false ∧ files.openFile name = .ok place

/-- What reading something that is open comes to. -/
def Input.content (files : FileSystem) : Input → Except IoError Bytes
  | page content => .ok content
  | file place => files.readPlace place

theorem readPlace_error (h : files.readPlace place = .error cause) :
    cause = .isADirectory ∧ files.node? place = some .directory := by
  rw [FileSystem.readPlace] at h
  split at h
  · cases h
  · next hnode =>
    obtain rfl := Except.error.inj h
    exact ⟨rfl, hnode⟩
  · cases h

/-- What is open hands out its content. -/
theorem source_of_content {content : Bytes} (h : input.content files = .ok content) :
    input.source files = .ofBytes content := by
  cases input with
  | page whole =>
    obtain rfl := Except.ok.inj h
    rfl
  | file place =>
    rw [Input.content] at h
    rw [Input.source, h]

/-- What is open and has no content to hand out is a directory. -/
theorem source_of_content_error (h : input.content files = .error cause) :
    cause = .isADirectory ∧ input.source files = [.failure cause] := by
  cases input with
  | page whole => cases h
  | file place =>
    rw [Input.content] at h
    rw [Input.source, h]
    exact ⟨(readPlace_error h).1, rfl⟩

theorem readAll_source (files : FileSystem) (input : Input) :
    (input.source files).readAll = input.content files := by
  cases hcontent : input.content files with
  | ok content => rw [source_of_content hcontent, Stream.readAll_ofBytes]
  | error cause =>
    obtain ⟨rfl, hsource⟩ := source_of_content_error hcontent
    rw [hsource, Stream.readAll_failure (by decide)]

theorem openResource_files (name : String) (session : Session) :
    ((openResource name).run session).2.files = session.files := by
  cases hurl : Path.isUrl name with
  | true =>
    rw [openResource_of_url hurl]
    exact openUrl_files name session
  | false =>
    rw [openResource_of_location hurl]
    cases session.files.openFile name <;> rfl

/-- Reading a resource is opening it and taking what it has. -/
theorem readWhole_eq (name : String) (session : Session) :
    ((readWhole name).run session).1 =
      ((openResource name).run session).1.bind fun input =>
        (input.content session.files).mapError .io := by
  have hfiles := openResource_files name session
  rw [readWhole, run_bind]
  generalize (openResource name).run session = attempt at hfiles
  obtain ⟨opened, after⟩ := attempt
  cases opened with
  | error error => rfl
  | ok input =>
    show (input.source after.files).readAll.mapError Error.io = _
    rw [readAll_source, show after.files = session.files from hfiles]
    rfl

theorem readWhole_ok_iff {content : Bytes}
    (hopen : ((openResource name).run session).1 = .ok input) :
    ((readWhole name).run session).1 = .ok content ↔
      input.content session.files = .ok content := by
  rw [readWhole_eq, hopen]
  show (input.content session.files).mapError Error.io = .ok content ↔ _
  cases input.content session.files with
  | ok whole =>
    constructor
    · intro h
      rw [Except.ok.inj h]
    · intro h
      rw [Except.ok.inj h]
      rfl
  | error cause =>
    constructor
    · intro h
      cases h
    · intro h
      cases h

/-- What a resource has does not depend on what has been used in between. -/
theorem readWhole_of_follows {after : Session} (current : session.Current)
    (follows : Follows session after) (name : String) :
    ((readWhole name).run after).1 = ((readWhole name).run session).1 := by
  cases hurl : Path.isUrl name with
  | true =>
    rw [readWhole_of_url hurl, readWhole_of_url hurl, openUrl_result follows.current.rest,
      openUrl_result current.rest, follows.current.pageAt_eq, current.pageAt_eq,
      follows.page_eq]
  | false => rw [readWhole_of_location hurl, readWhole_of_location hurl, follows.files_eq]

theorem names_of_find {node : Files.Node} (hurl : Path.isUrl name = false)
    (h : files.find name = .ok (place, node)) : Names files name place := by
  refine ⟨hurl, ?_⟩
  rw [FileSystem.openFile, h]
  rfl

theorem openResource_of_names (h : Names session.files name place) :
    (openResource name).run session = (.ok (.file place), session) := by
  rw [openResource_of_location h.1, h.2]

theorem readWhole_of_names (session : Session) (h : Names session.files name place) :
    ((readWhole name).run session).1 = (session.files.readPlace place).mapError .io := by
  rw [readWhole_eq, openResource_of_names h]
  rfl

/-- What is open is a page, or the place that the name leads to. -/
theorem openResource_ok (h : ((openResource name).run session).1 = .ok input) :
    (Path.isUrl name = true ∧ ∃ content, input = .page content) ∨
      ∃ place, input = .file place ∧ Names session.files name place := by
  -- a page is held as a whole, a file by its place
  cases hurl : Path.isUrl name with
  | true =>
    rw [openResource_of_url hurl] at h
    generalize (openUrl name).run session = attempt at h
    obtain ⟨result, after⟩ := attempt
    cases result with
    | error error => cases h
    | ok content =>
      obtain rfl := Except.ok.inj h
      exact .inl ⟨rfl, content, rfl⟩
  | false =>
    rw [openResource_of_location hurl] at h
    cases hopen : session.files.openFile name with
    | error cause =>
      rw [hopen] at h
      cases h
    | ok place =>
      rw [hopen] at h
      obtain rfl := Except.ok.inj h
      exact .inr ⟨place, rfl, hurl, hopen⟩

/-! ## Copies -/

/-- The ways in which a copy can end: the source does not open, the destination cannot be created,
the source cannot be read, or what the source has by then is written, as far as the disk takes
it. -/
inductive CopyEnds (session : Session) (name dest : String) : Except Error Nat → FileSystem → Prop
  | unopened {error : Error} (hopen : ((openResource name).run session).1 = .error error) :
    CopyEnds session name dest (.error error) session.files
  | uncreated {input : Input} {cause : IoError}
    (hopen : ((openResource name).run session).1 = .ok input)
    (hcreate : session.files.createFile dest = .error cause) :
    CopyEnds session name dest (.error (.io cause)) session.files
  | unread {input : Input} {place : Place} {emptied : FileSystem} {cause : IoError}
    (hopen : ((openResource name).run session).1 = .ok input)
    (hcreate : session.files.createFile dest = .ok (place, emptied))
    (hread : input.content emptied = .error cause) :
    CopyEnds session name dest (.error (.io cause)) emptied
  | moved {input : Input} {place : Place} {emptied : FileSystem} {content : Bytes}
    {result : Except IoError Unit} {sink : Stream.Sink}
    (hopen : ((openResource name).run session).1 = .ok input)
    (hcreate : session.files.createFile dest = .ok (place, emptied))
    (hread : input.content emptied = .ok content)
    (hwrite : session.files.sink.writePieces (Stream.pieces content) = (result, sink)) :
    CopyEnds session name dest ((result.map fun _ => content.length).mapError .io)
      (session.files.store place sink.written sink.receptions)

theorem createResource_run (dest : String) (session : Session) :
    (createResource dest).run session =
      match session.files.createFile dest with
      | .ok (place, files) => (.ok place, { session with files })
      | .error cause => (.error (.io cause), session) := by
  simp only [createResource, StateT.run_bind, StateT.run_get, pure_bind]
  cases session.files.createFile dest <;> rfl

/-- Once the destination has been created, what is open then is copied. -/
theorem ends_of_copy (hopen : ((openResource name).run session).1 = .ok input)
    (hcreate : session.files.createFile dest = .ok (place, emptied)) :
    let copied := Stream.copy (input.source emptied) emptied.sink
    CopyEnds session name dest (copied.result.mapError .io)
      (emptied.store place copied.sink.written copied.sink.receptions) := by
  intro copied
  obtain ⟨-, -, -, hemptied⟩ := FileSystem.createFile_eq_ok_iff.1 hcreate
  have hstore (content : Bytes) (writes : List Stream.Reception) :
      emptied.store place content writes = session.files.store place content writes := by
    rw [hemptied, FileSystem.store_put]
  have hsink : emptied.sink = session.files.sink := by
    rw [hemptied]
    rfl
  cases hcontent : input.content emptied with
  | ok content =>
    have hcopied : copied = Stream.copy (.ofBytes content) session.files.sink := by
      show Stream.copy (input.source emptied) emptied.sink = _
      rw [source_of_content hcontent, hsink]
    obtain ⟨hresult, hwritten, hreceptions⟩ := Stream.copy_content content session.files.sink
    rw [hcopied, hresult, hwritten, hreceptions, hstore]
    exact .moved hopen hcreate hcontent rfl
  | error cause =>
    -- a directory gives nothing to write, so the disk is not asked
    obtain ⟨rfl, hsource⟩ := source_of_content_error hcontent
    have hcopied : copied = Stream.copy [.failure .isADirectory] session.files.sink := by
      show Stream.copy (input.source emptied) emptied.sink = _
      rw [hsource, hsink]
    have hkind : IoError.isADirectory.kind ≠ .interrupted := by decide
    obtain ⟨hresult, hwritten, hreceptions⟩ := Stream.copy_failure hkind [] session.files.sink
    have hsame : session.files.store place session.files.sink.written
        session.files.sink.receptions = emptied :=
      (FileSystem.store_writes session.files place []).trans hemptied.symm
    rw [hcopied, hresult, hwritten, hreceptions, hstore, hsame]
    exact .unread hopen hcreate hcontent

theorem copyResource_ends (name dest : String) (session : Session) :
    CopyEnds session name dest ((copyResource name dest).run session).1
      ((copyResource name dest).run session).2.files := by
  have hopen : ∃ opened after, (openResource name).run session = (opened, after) := ⟨_, _, rfl⟩
  obtain ⟨opened, after, hrun⟩ := hopen
  have hopen : ((openResource name).run session).1 = opened := by rw [hrun]
  have hfiles : after.files = session.files := by
    rw [← openResource_files name session, hrun]
  rw [copyResource, run_bind, hrun]
  -- the source does not open, the destination cannot be made, or the copy runs
  cases opened with
  | error error =>
    have hends : CopyEnds session name dest _ _ := .unopened hopen
    rwa [← hfiles] at hends
  | ok input =>
    simp only [run_bind, createResource_run, hfiles]
    cases hcreate : session.files.createFile dest with
    | error cause =>
      have hends := CopyEnds.uncreated hopen hcreate
      rwa [← hfiles] at hends
    | ok created =>
      obtain ⟨place, emptied⟩ := created
      exact ends_of_copy hopen hcreate

/-- A copy whose source does not open fails as the opening does. -/
theorem CopyEnds.error_of_unopened {result : Except Error Nat}
    (hends : CopyEnds session name dest result files)
    (hopen : ((openResource name).run session).1 = .error error) : result = .error error := by
  cases hends with
  | unopened hother => rw [Except.error.inj (hother.symm.trans hopen)]
  | uncreated hother => cases hopen.symm.trans hother
  | unread hother => cases hopen.symm.trans hother
  | moved hother => cases hopen.symm.trans hother

/-! ## What a copy delivers -/

/-- Creating the destination changes what is open only if that is the same file, which is empty
then. -/
theorem content_emptied (hopen : ((openResource name).run session).1 = .ok input)
    (hcreate : session.files.createFile dest = .ok (place, emptied)) :
    (Names session.files name place → input.content emptied = .ok []) ∧
      (¬Names session.files name place →
        input.content emptied = input.content session.files) := by
  obtain ⟨-, hnode, -, rfl⟩ := FileSystem.createFile_eq_ok_iff.1 hcreate
  obtain ⟨hurl, content, rfl⟩ | ⟨source, rfl, hnames⟩ := openResource_ok hopen
  · refine ⟨fun hnames => ?_, fun _ => rfl⟩
    rw [hnames.1] at hurl
    cases hurl
  · constructor
    · intro hself
      obtain rfl : source = place := Except.ok.inj (hnames.2.symm.trans hself.2)
      rw [Input.content, FileSystem.readPlace,
        FileSystem.node?_put_self (FileSystem.ne_nil_of_not_directory hnode)]
    · intro hother
      refine FileSystem.readPlace_put_of_ne ?_
      rintro rfl
      exact hother hnames

/-- What is open and cannot be read is a directory. -/
theorem content_error (hopen : ((openResource name).run session).1 = .ok input)
    (h : input.content session.files = .error cause) :
    cause = .isADirectory ∧ ∃ place, Names session.files name place ∧
      session.files.node? place = some .directory := by
  obtain ⟨-, content, rfl⟩ | ⟨place, rfl, hnames⟩ := openResource_ok hopen
  · cases h
  · obtain ⟨hcause, hnode⟩ := readPlace_error h
    exact ⟨hcause, place, hnames, hnode⟩

/-- A directory that is named is not the place of a file that was created. -/
theorem not_names_of_directory {source : Place} (hnames : Names session.files name source)
    (hnode : session.files.node? source = some .directory)
    (hcreate : session.files.createFile dest = .ok (place, emptied)) :
    ¬Names session.files name place := by
  intro hself
  obtain ⟨-, hplace, -⟩ := FileSystem.createFile_eq_ok_iff.1 hcreate
  obtain rfl : source = place := Except.ok.inj (hnames.2.symm.trans hself.2)
  exact hplace hnode

/-- A copy that succeeds delivers what its source has, unless the source is the destination: then
there is nothing any more. -/
theorem copyResource_ok {count : Nat} (h : ((copyResource name dest).run session).1 = .ok count) :
    ∃ content place emptied delivered writes,
      ((readWhole name).run session).1 = .ok content ∧
      session.files.createFile dest = .ok (place, emptied) ∧
      count = delivered.length ∧
      ((copyResource name dest).run session).2.files =
        session.files.store place delivered writes ∧
      (Names session.files name place → delivered = []) ∧
      (¬Names session.files name place → delivered = content) := by
  have hends := copyResource_ends name dest session
  rw [h] at hends
  generalize ((copyResource name dest).run session).2.files = files at hends
  generalize hresult : (Except.ok count : Except Error Nat) = result at hends
  cases hends with
  | unopened hopen => cases hresult
  | uncreated hopen hcreate => cases hresult
  | unread hopen hcreate hread => cases hresult
  | @moved input place emptied delivered written sink hopen hcreate hread hwrite =>
    cases written with
    | error cause => cases hresult
    | ok _ =>
      -- all pieces were written, so the file has them
      have hcount : count = delivered.length := Except.ok.inj hresult
      have hwritten : sink.written = delivered := by
        have hall := Stream.written_writePieces (congrArg Prod.fst hwrite)
        rwa [hwrite, Stream.flatten_pieces] at hall
      obtain ⟨hself, hother⟩ := content_emptied hopen hcreate
      rw [hread] at hself hother
      cases hcontent : input.content session.files with
      | ok content =>
        refine ⟨content, place, emptied, delivered, sink.receptions,
          (readWhole_ok_iff hopen).2 hcontent, hcreate, hcount, by rw [hwritten], ?_, ?_⟩
        · exact fun hnames => Except.ok.inj (hself hnames)
        · exact fun hnames => Except.ok.inj ((hother hnames).trans hcontent)
      | error cause =>
        -- it would be a directory, before the destination is created and after it
        obtain ⟨-, source, hnames, hnode⟩ := content_error hopen hcontent
        rw [hcontent] at hother
        cases hother (not_names_of_directory hnames hnode hcreate)

/-- Once there is something to read and somewhere to put it, a copy is writing: all of the source,
or nothing where that is the destination. -/
theorem copyResource_writes {content : Bytes}
    (hread : ((readWhole name).run session).1 = .ok content)
    (hcreate : session.files.createFile dest = .ok (place, emptied)) :
    ∃ delivered, (Names session.files name place → delivered = []) ∧
      (¬Names session.files name place → delivered = content) ∧
      let writing := session.files.sink.writePieces (Stream.pieces delivered)
      ((copyResource name dest).run session).1 =
          (writing.1.map fun _ => delivered.length).mapError .io ∧
        ((copyResource name dest).run session).2.files =
          session.files.store place writing.2.written writing.2.receptions := by
  have hends := copyResource_ends name dest session
  generalize ((copyResource name dest).run session).1 = result at hends ⊢
  generalize ((copyResource name dest).run session).2.files = files at hends ⊢
  cases hends with
  | unopened hopen =>
    rw [readWhole_eq, hopen] at hread
    cases hread
  | uncreated hopen hcreated =>
    rw [hcreate] at hcreated
    cases hcreated
  | unread hopen hcreated hfault =>
    obtain ⟨rfl, rfl⟩ := Prod.mk.inj (Except.ok.inj (hcreate.symm.trans hcreated))
    obtain ⟨hself, hother⟩ := content_emptied hopen hcreate
    by_cases hnames : Names session.files name place
    · cases hfault.symm.trans (hself hnames)
    · cases hfault.symm.trans ((hother hnames).trans ((readWhole_ok_iff hopen).1 hread))
  | @moved input _ _ delivered written sink hopen hcreated hcontent hwrite =>
    obtain ⟨rfl, rfl⟩ := Prod.mk.inj (Except.ok.inj (hcreate.symm.trans hcreated))
    obtain ⟨hself, hother⟩ := content_emptied hopen hcreate
    rw [hcontent] at hself hother
    refine ⟨delivered, fun hnames => Except.ok.inj (hself hnames), fun hnames => ?_, ?_⟩
    · exact Except.ok.inj ((hother hnames).trans ((readWhole_ok_iff hopen).1 hread))
    · rw [hwrite]
      exact ⟨rfl, rfl⟩

/-- A source that can be read is copied to a destination that can be created, when the disk takes
it. -/
theorem copyResource_succeeds {content : Bytes}
    (hread : ((readWhole name).run session).1 = .ok content)
    (hcreate : session.files.createFile dest = .ok (place, emptied))
    (htakes : session.files.sink.Takes content) :
    ∃ count, ((copyResource name dest).run session).1 = .ok count := by
  obtain ⟨delivered, hself, hother, hresult, -⟩ := copyResource_writes hread hcreate
  have hdelivered : session.files.sink.Takes delivered := by
    by_cases hnames : Names session.files name place
    · rw [hself hnames]
      exact Stream.takes_nil _
    · rwa [hother hnames]
  rw [Stream.Sink.Takes] at hdelivered
  rw [hresult, hdelivered]
  exact ⟨delivered.length, rfl⟩

/-- When the disk does not take all of it, the copy fails, and what is left at the destination is
the front that the disk took. -/
theorem copyResource_unfinished {content : Bytes}
    (hread : ((readWhole name).run session).1 = .ok content)
    (hcreate : session.files.createFile dest = .ok (place, emptied))
    (hnames : ¬Names session.files name place) (hfull : ¬session.files.sink.Takes content) :
    ∃ cause front writes, ((copyResource name dest).run session).1 = .error (.io cause) ∧
      front <+: content ∧ front ≠ content ∧
      ((copyResource name dest).run session).2.files =
        session.files.store place front writes := by
  obtain ⟨delivered, -, hother, hresult, hfiles⟩ := copyResource_writes hread hcreate
  obtain rfl := hother hnames
  rw [Stream.Sink.Takes] at hfull
  cases hwritten : (session.files.sink.writePieces (Stream.pieces delivered)).1 with
  | ok _ => exact absurd hwritten hfull
  | error cause =>
    obtain ⟨front, hfront, hshort, htaken⟩ := Stream.exists_front_of_writePieces hwritten
    rw [Stream.flatten_pieces] at hfront hshort
    have hleft : (session.files.sink.writePieces (Stream.pieces delivered)).2.written = front :=
      htaken
    rw [hwritten] at hresult
    rw [hleft] at hfiles
    exact ⟨cause, front, _, hresult, hfront, hshort, hfiles⟩

/-- A copy whose source cannot be read fails. It leaves the files as they are, unless the source is
a directory and the destination can be created: then that is empty afterwards. -/
theorem copyResource_of_unreadable (dest : String)
    (h : ((readWhole name).run session).1 = .error error) :
    (∃ failure, ((copyResource name dest).run session).1 = .error failure) ∧
      (((copyResource name dest).run session).2.files = session.files ∧
          (∀ source place emptied, Names session.files name source →
            session.files.node? source = some .directory →
            session.files.createFile dest ≠ .ok (place, emptied)) ∨
        ∃ source place emptied, Names session.files name source ∧
          session.files.node? source = some .directory ∧
          session.files.createFile dest = .ok (place, emptied) ∧
          ((copyResource name dest).run session).2.files = emptied) := by
  have hends := copyResource_ends name dest session
  generalize ((copyResource name dest).run session).1 = result at hends
  generalize ((copyResource name dest).run session).2.files = files at hends
  cases hends with
  | unopened hopen =>
    refine ⟨⟨_, rfl⟩, .inl ⟨rfl, fun source place emptied hnames _ _ => ?_⟩⟩
    -- a directory would have opened
    rw [openResource_of_names hnames] at hopen
    cases hopen
  | uncreated hopen hcreate =>
    refine ⟨⟨_, rfl⟩, .inl ⟨rfl, fun source place emptied _ _ hcreated => ?_⟩⟩
    rw [hcreate] at hcreated
    cases hcreated
  | @unread input place emptied cause hopen hcreate hread =>
    cases hcontent : input.content session.files with
    | ok content => cases h.symm.trans ((readWhole_ok_iff hopen).2 hcontent)
    | error cause =>
      obtain ⟨-, source, hnames, hnode⟩ := content_error hopen hcontent
      exact ⟨⟨_, rfl⟩, .inr ⟨source, place, _, hnames, hnode, hcreate, rfl⟩⟩
  | @moved input place emptied delivered written sink hopen hcreate hread hwrite =>
    cases hcontent : input.content session.files with
    | ok content => cases h.symm.trans ((readWhole_ok_iff hopen).2 hcontent)
    | error cause =>
      -- the directory would still be one
      obtain ⟨-, source, hnames, hnode⟩ := content_error hopen hcontent
      have hnot := not_names_of_directory hnames hnode hcreate
      cases hread.symm.trans (((content_emptied hopen hcreate).2 hnot).trans hcontent)

/-- A directory cannot be copied, and yet the destination is empty then. -/
theorem copyResource_directory {above : Place} (hnames : Names session.files name above)
    (hnode : session.files.node? above = some .directory)
    (hcreate : session.files.createFile dest = .ok (place, emptied)) :
    (∃ failure, ((copyResource name dest).run session).1 = .error failure) ∧
      ((copyResource name dest).run session).2.files = emptied := by
  have hread : ((readWhole name).run session).1 = .error (.io .isADirectory) := by
    rw [readWhole_of_names session hnames, FileSystem.readPlace, hnode]
    rfl
  obtain ⟨hfailure, ⟨-, hno⟩ | ⟨_, _, _, -, -, hcreated, hemptied⟩⟩ :=
    copyResource_of_unreadable dest hread
  · exact absurd hcreate (hno above place emptied hnames hnode)
  · obtain ⟨-, rfl⟩ := Prod.mk.inj (Except.ok.inj (hcreate.symm.trans hcreated))
    exact ⟨hfailure, hemptied⟩

/-- A file that is copied to where it is loses its content, and the copy succeeds. -/
theorem copyResource_self (hnames : Names session.files name place)
    (hcreate : session.files.createFile dest = .ok (place, emptied)) :
    ((copyResource name dest).run session).1 = .ok 0 ∧
      ((copyResource name dest).run session).2.files = emptied := by
  obtain ⟨-, hnode, -, hemptied⟩ := FileSystem.createFile_eq_ok_iff.1 hcreate
  -- a file can be created there, so what is there can be read
  obtain ⟨content, hread⟩ : ∃ content, ((readWhole name).run session).1 = .ok content := by
    rw [readWhole_of_names session hnames]
    cases hcontent : session.files.readPlace place with
    | ok content => exact ⟨content, rfl⟩
    | error cause => exact absurd (readPlace_error hcontent).2 hnode
  obtain ⟨delivered, hself, -, hresult, hfiles⟩ := copyResource_writes hread hcreate
  obtain rfl := hself hnames
  rw [Stream.pieces_nil] at hresult hfiles
  exact ⟨hresult, hfiles.trans hemptied.symm⟩

end Action

end Locator.Resolver
