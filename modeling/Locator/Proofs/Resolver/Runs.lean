import Locator.Proofs.Resolver.Reading

/-!
# Runs of resolvers that share a cache

Any number of resolvers use one cache, one call after the other; in between, entries are purged and
forgotten, time passes, files change, and every call finds a web of its own. `Session.log` has the
readings of pages that a run makes on the way. What calls that overlap may do to each other is a
matter of the cache alone (`Cache.Hall`).

* `Action.OnlyReads`: actions that do nothing to the cache and the web but to read pages, with one
  lemma for each way to put them together
* `step_spec`: what everything that can happen in a run does to the entries
* `Traced.runAll`: throughout a run, an entry is what the last reading of its page gave
* `entryOf?_runAll`: an entry that is still fresh in the end was kept all along
* `found_url_opens_from_cache`: a page that a search found is opened without reading it again
-/

namespace Locator.Resolver

open Cache (AtRest)
open Files (FileSystem)

/-! ## Actions that read pages -/

namespace Action

variable {α β : Type}

/-- The action does nothing to the cache, the web and the time but to read pages. -/
def OnlyReads (action : Action α) : Prop :=
  ∀ session : Session, session.cache.AtRest → ∃ urls, Reads session urls (action.run session).2

theorem OnlyReads.bind {action : Action α} {next : α → Action β} (h : action.OnlyReads)
    (hnext : ∀ result, (next result).OnlyReads) : (action >>= next).OnlyReads := by
  intro session rest
  obtain ⟨urls, hreads⟩ := h session rest
  obtain ⟨more, hmore⟩ := hnext (action.run session).1 _ hreads.rest
  exact ⟨urls ++ more, hreads.trans hmore⟩

theorem onlyReads_pure (value : α) : OnlyReads (pure value : Action α) :=
  fun _ rest => ⟨[], Reads.refl rest⟩

theorem OnlyReads.map {action : Action α} (h : action.OnlyReads) (f : α → β) :
    (f <$> action).OnlyReads := by
  rw [map_eq_pure_bind]
  exact h.bind fun result => onlyReads_pure (f result)

theorem onlyReads_openUrl (url : String) : (openUrl url).OnlyReads :=
  fun _ rest => ⟨_, openUrl_reads rest url⟩

theorem onlyReads_canOpenUrl (candidate : String) : (canOpenUrl candidate).OnlyReads := by
  rw [canOpenUrl]
  split
  · exact onlyReads_pure false
  · refine (onlyReads_openUrl candidate).bind fun result => ?_
    cases result with
    | ok content => exact onlyReads_pure true
    | error error => exact fun _ rest => ⟨[], Reads.of_eq rest rfl rfl rfl rfl⟩

theorem onlyReads_find (parent : Option String) (name : String) : (find parent name).OnlyReads := by
  intro session rest
  obtain ⟨tried, found?, -, -, hreads, -⟩ := find_leads rest parent name
  exact ⟨_, hreads⟩

theorem onlyReads_resolve (settings : Settings) (parent : Option String) (name : String) :
    (resolve settings parent name).OnlyReads := by
  intro session rest
  obtain ⟨tried, found?, -, -, hreads, -⟩ := resolve_leads rest settings parent name
  exact ⟨_, hreads⟩

theorem onlyReads_openResource (name : String) : (openResource name).OnlyReads := by
  rw [openResource]
  split
  · exact (onlyReads_openUrl name).bind fun result => onlyReads_pure (result.map Input.page)
  · intro session rest
    refine ⟨[], ?_⟩
    cases hopen : session.files.openFile name <;> exact Reads.of_eq rest rfl rfl rfl rfl

/-- Files have no part in the cache. -/
theorem onlyReads_createResource (name : String) : (createResource name).OnlyReads := by
  intro session rest
  refine ⟨[], ?_⟩
  simp only [createResource, StateT.run_bind, StateT.run_get, pure_bind]
  cases session.files.createFile name <;> exact Reads.of_eq rest rfl rfl rfl rfl

theorem onlyReads_get : (get : Action Session).OnlyReads :=
  fun _ rest => ⟨[], Reads.refl rest⟩

theorem onlyReads_storeTaken (place : Files.Place) (sink : Stream.Sink) :
    (storeTaken place sink).OnlyReads :=
  fun _ rest => ⟨[], Reads.of_eq rest rfl rfl rfl rfl⟩

theorem onlyReads_writePlace (place : Files.Place) (content : Bytes) :
    (writePlace place content).OnlyReads := by
  rw [writePlace]
  exact onlyReads_get.bind fun _ => onlyReads_storeTaken place _

theorem onlyReads_copyFrom (input : Input) (sink : Stream.Sink) :
    (copyFrom input sink).OnlyReads :=
  fun _ rest => ⟨[], Reads.of_eq rest rfl rfl rfl rfl⟩

theorem onlyReads_copyResource (name dest : String) : (copyResource name dest).OnlyReads := by
  rw [copyResource]
  refine (onlyReads_openResource name).bind fun opened => ?_
  cases opened with
  | error error => exact onlyReads_pure _
  | ok input =>
    refine (onlyReads_createResource dest).bind fun created => ?_
    cases created with
    | error error => exact onlyReads_pure _
    | ok place =>
      refine onlyReads_get.bind fun session => ?_
      refine (onlyReads_copyFrom input session.files.sink).bind fun copied => ?_
      exact (onlyReads_storeTaken place _).bind fun _ => onlyReads_pure _

end Action

/-! ## Runs -/

/-- Looking for a resource, by a reference to it or by its name as it stands. -/
inductive Search where
  | byReference (parent : Option String) (name : String)
  | byName (parent : Option String) (name : String)

namespace Search

/-- What the search tries in turn. -/
def candidates (settings : Settings) : Search → List Candidate
  | byReference parent name => Resolver.candidates settings parent name
  | byName parent name => candidatesFor parent name

def action (settings : Settings) : Search → Action (Option String)
  | byReference parent name => some <$> Action.resolve settings parent name
  | byName parent name => Action.find parent name

end Search

/-- What a resolver is used for. -/
inductive Task where
  | search (wanted : Search)
  | probe (candidate : String)
  | openUrl (url : String)
  | openResource (name : String)
  | writeResource (name : String) (content : Bytes)
  | copyResource (name dest : String)

/-- Creates a file and writes a content to it. -/
def Action.writeResource (name : String) (content : Bytes) : Action Unit := do
  match ← createResource name with
  | .ok place => writePlace place content
  | .error _ => return

def Task.action (settings : Settings) : Task → Action Unit
  | search wanted => (fun _ => ()) <$> wanted.action settings
  | probe candidate => (fun _ => ()) <$> Action.canOpenUrl candidate
  | openUrl url => (fun _ => ()) <$> Action.openUrl url
  | openResource name => (fun _ => ()) <$> Action.openResource name
  | writeResource name content => Action.writeResource name content
  | copyResource name dest => (fun _ => ()) <$> Action.copyResource name dest

/-- What happens in a run. -/
inductive Event where
  /-- A resolver is used, with its own settings and the web as it is for this resolver now. -/
  | task (settings : Settings) (web : Web) (task : Task)
  | purge
  | invalidate (key : String)
  | clear
  | wait (nanos : Nat)
  | change (files : FileSystem)

/-- The entry of a key is forgotten, fresh or not. -/
def Event.forgets (key : String) : Event → Bool
  | invalidate other => other == key
  | clear => true
  | _ => false

namespace Session

/-- The session as a resolver meets it that reaches this web. -/
def facing (session : Session) (web : Web) : Session :=
  { session with web }

def step (session : Session) : Event → Session
  | .task settings web task => ((task.action settings).run (session.facing web)).2
  | .purge => (Action.purge.run session).2
  | .invalidate key => { session with cache := (session.cache.invalidate key).2 }
  | .clear => { session with cache := session.cache.clear }
  | .wait nanos => { session with now := session.now + nanos }
  | .change files => { session with files }

def runAll (session : Session) (events : List Event) : Session :=
  events.foldl step session

/-- The readings of pages that something makes. A web does not change when it is read, so it has
afterwards what it had then. -/
def readsIn (session : Session) (event : Event) : List Read :=
  let after := session.step event
  after.web.reads session.now (after.fetched.drop session.fetched.length)

/-- The readings of pages in a run, in order. -/
def log (session : Session) : List Event → List Read
  | [] => []
  | event :: rest => session.readsIn event ++ (session.step event).log rest

theorem runAll_append (session : Session) (events more : List Event) :
    session.runAll (events ++ more) = (session.runAll events).runAll more :=
  List.foldl_append

theorem log_append (session : Session) (events more : List Event) :
    session.log (events ++ more) = session.log events ++ (session.runAll events).log more := by
  induction events generalizing session with
  | nil => rfl
  | cons event rest ih => rw [List.cons_append, log, log, ih, List.append_assoc]; rfl

end Session

/-! ## One step -/

/-- What a step does to the entries of a cache at rest. -/
structure StepSpec (before : Session) (event : Event) : Prop where
  rest : (before.step event).cache.AtRest
  ttl_eq : (before.step event).cache.ttl = before.cache.ttl
  now_le : before.now ≤ (before.step event).now
  /-- An entry that is still fresh is kept, unless it is to be forgotten. -/
  keeps : ∀ key entry, event.forgets key = false → before.cache.entryOf? key = some entry →
    entry.isFresh before.cache.ttl (before.step event).now = true →
      (before.step event).cache.entryOf? key = some entry
  /-- An entry was there before and its page has not been read, or the last reading gave it. -/
  origin : ∀ key entry, (before.step event).cache.entryOf? key = some entry →
    (Read.last? (before.readsIn event) key = none ∧ before.cache.entryOf? key = some entry) ∨
      Read.last? (before.readsIn event) key = some ⟨key, .ok entry.value, entry.storedAt⟩

variable {session : Session} {event : Event} {events : List Event}

theorem onlyReads_task (settings : Settings) (task : Task) :
    (task.action settings).OnlyReads := by
  cases task with
  | search wanted =>
    refine Action.OnlyReads.map ?_ _
    cases wanted with
    | byReference parent name => exact (Action.onlyReads_resolve settings parent name).map _
    | byName parent name => exact Action.onlyReads_find parent name
  | probe candidate => exact (Action.onlyReads_canOpenUrl candidate).map _
  | openUrl url => exact (Action.onlyReads_openUrl url).map _
  | openResource name => exact (Action.onlyReads_openResource name).map _
  | writeResource name content =>
    refine (Action.onlyReads_createResource name).bind fun created => ?_
    cases created with
    | error error => exact Action.onlyReads_pure _
    | ok place => exact Action.onlyReads_writePlace place content
  | copyResource name dest => exact (Action.onlyReads_copyResource name dest).map _

theorem readsIn_task {settings : Settings} {web : Web} {task : Task} {urls : List String}
    (h : Reads (session.facing web) urls (session.step (.task settings web task))) :
    session.readsIn (.task settings web task) = web.reads session.now urls := by
  have hfetched : (session.step (.task settings web task)).fetched = session.fetched ++ urls :=
    h.fetched_eq
  rw [Session.readsIn, Web.reads_congr h.page_eq h.delay_eq, hfetched, List.drop_left]
  rfl

/-- Nothing is read where no page is fetched. -/
theorem readsIn_of_fetched_eq (h : (session.step event).fetched = session.fetched) :
    session.readsIn event = [] := by
  rw [Session.readsIn, h, List.drop_length, Web.reads]

/-- A step that only forgets reads nothing. -/
theorem StepSpec.of_forgetting (rest : (session.step event).cache.AtRest)
    (ttl_eq : (session.step event).cache.ttl = session.cache.ttl)
    (now_le : session.now ≤ (session.step event).now)
    (fetched_eq : (session.step event).fetched = session.fetched)
    (keeps : ∀ key entry, event.forgets key = false → session.cache.entryOf? key = some entry →
      entry.isFresh session.cache.ttl (session.step event).now = true →
        (session.step event).cache.entryOf? key = some entry)
    (origin : ∀ key entry, (session.step event).cache.entryOf? key = some entry →
      session.cache.entryOf? key = some entry) :
    StepSpec session event where
  rest := rest
  ttl_eq := ttl_eq
  now_le := now_le
  keeps := keeps
  origin key entry hentry := by
    rw [readsIn_of_fetched_eq fetched_eq]
    exact Or.inl ⟨rfl, origin key entry hentry⟩

theorem run_purge (session : Session) :
    ∃ records, (Action.purge.run session).2 =
      { session with cache := (session.cache.purge session.now).2, records } := by
  simp only [Action.purge, StateT.run_bind, StateT.run_get, pure_bind]
  by_cases hcount : 0 < (session.cache.purge session.now).1
  · exact ⟨_, by rw [if_pos hcount]; rfl⟩
  · exact ⟨_, by rw [if_neg hcount]; rfl⟩

/-- Resolvers do nothing to the entries but to read pages. -/
theorem stepSpec_task (rest : session.cache.AtRest) (settings : Settings) (web : Web)
    (task : Task) : StepSpec session (.task settings web task) := by
  obtain ⟨urls, hreads⟩ := onlyReads_task settings task (session.facing web) rest
  constructor
  case rest => exact hreads.rest
  case ttl_eq => exact hreads.ttl_eq
  case now_le => exact hreads.now_le
  case keeps =>
    intro key entry _ hentry hfresh
    exact hreads.entryOf?_of_fresh hentry hfresh
  case origin =>
    intro key entry hentry
    rw [readsIn_task hreads]
    exact hreads.entryOf?_cases hentry

theorem stepSpec_purge (rest : session.cache.AtRest) : StepSpec session .purge := by
  obtain ⟨records, hpurge⟩ := run_purge session
  have hstep : session.step .purge =
      { session with cache := (session.cache.purge session.now).2, records } := hpurge
  apply StepSpec.of_forgetting
  case rest =>
    rw [hstep]
    exact rest.purge
  case ttl_eq =>
    rw [hstep]
    exact Cache.ttl_purge
  case now_le => exact Nat.le_of_eq (congrArg Session.now hstep).symm
  case fetched_eq => rw [hstep]
  case keeps =>
    -- a purge takes no time, so what is fresh behind it was fresh for it
    intro key entry _ hentry hfresh
    rw [hstep] at hfresh ⊢
    rw [Cache.entryOf?_purge rest, hentry, Option.filter_some, if_pos hfresh]
  case origin =>
    intro key entry hentry
    rw [hstep, Cache.entryOf?_purge rest] at hentry
    exact (Option.filter_eq_some_iff.1 hentry).1

theorem stepSpec_invalidate (rest : session.cache.AtRest) (key : String) :
    StepSpec session (.invalidate key) := by
  apply StepSpec.of_forgetting
  case rest => exact rest.invalidate
  case ttl_eq => exact Cache.ttl_invalidate
  case now_le => exact Nat.le_refl _
  case fetched_eq => rfl
  case keeps =>
    intro other entry hkept hentry _
    have hne : other ≠ key := fun heq => beq_eq_false_iff_ne.1 hkept heq.symm
    exact (Cache.entryOf?_invalidate other).trans ((if_neg hne).trans hentry)
  case origin =>
    intro other entry hentry
    have hafter := (Cache.entryOf?_invalidate other).symm.trans hentry
    split at hafter
    · cases hafter
    · exact hafter

theorem stepSpec_clear (rest : session.cache.AtRest) : StepSpec session .clear := by
  apply StepSpec.of_forgetting
  case rest => exact rest.clear
  case ttl_eq => rfl
  case now_le => exact Nat.le_refl _
  case fetched_eq => rfl
  case keeps =>
    -- everything is to be forgotten
    intro key entry hkept
    cases hkept
  case origin =>
    intro key entry hentry
    have hafter := (Cache.entryOf?_clear : _ = none).symm.trans hentry
    cases hafter

theorem step_spec (rest : session.cache.AtRest) (event : Event) : StepSpec session event := by
  cases event with
  | task settings web task => exact stepSpec_task rest settings web task
  | purge => exact stepSpec_purge rest
  | invalidate key => exact stepSpec_invalidate rest key
  | clear => exact stepSpec_clear rest
  | wait nanos =>
    exact StepSpec.of_forgetting rest rfl (Nat.le_add_right _ _) rfl
      (fun _ _ _ hentry _ => hentry) fun _ _ hentry => hentry
  | change files =>
    exact StepSpec.of_forgetting rest rfl (Nat.le_refl _) rfl
      (fun _ _ _ hentry _ => hentry) fun _ _ hentry => hentry

/-! ## Whole runs -/

/-- The cache is at rest, and every entry is what the last reading of its page gave. -/
structure Traced (ttl : Duration) (log : List Read) (session : Session) : Prop where
  rest : session.cache.AtRest
  ttl_eq : session.cache.ttl = ttl
  recorded : ∀ key entry, session.cache.entryOf? key = some entry →
    Read.last? log key = some ⟨key, .ok entry.value, entry.storedAt⟩

namespace Traced

variable {ttl : Duration} {log : List Read}

theorem opening (h : session.cache = { ttl }) : Traced ttl [] session where
  rest := h ▸ Cache.atRest_empty ttl
  ttl_eq := by rw [h]
  recorded key entry hentry := by
    rw [h] at hentry
    cases hentry

theorem step (traced : Traced ttl log session) (event : Event) :
    Traced ttl (log ++ session.readsIn event) (session.step event) := by
  have spec := step_spec traced.rest event
  refine ⟨spec.rest, spec.ttl_eq.trans traced.ttl_eq, fun key entry hentry => ?_⟩
  rw [Read.last?_append]
  obtain ⟨hnone, hbefore⟩ | hlast := spec.origin key entry hentry
  · rw [hnone, Option.none_or, traced.recorded key entry hbefore]
  · rw [hlast, Option.some_or]

theorem runAll (traced : Traced ttl log session) (events : List Event) :
    Traced ttl (log ++ session.log events) (session.runAll events) := by
  induction events generalizing session log with
  | nil => rwa [Session.log, List.append_nil]
  | cons event rest ih =>
    rw [Session.log, ← List.append_assoc]
    exact ih (traced.step event)

end Traced

theorem now_le_runAll (rest : session.cache.AtRest) (events : List Event) :
    session.now ≤ (session.runAll events).now := by
  induction events generalizing session with
  | nil => exact Nat.le_refl _
  | cons event more ih =>
    have spec := step_spec rest event
    exact Nat.le_trans spec.now_le (ih spec.rest)

/-- An entry that is still fresh at the end of a run has been there all the time, unless it was to
be forgotten. -/
theorem entryOf?_runAll {key : String} {entry : Entry Bytes} (rest : session.cache.AtRest)
    (hkept : ∀ event ∈ events, event.forgets key = false)
    (hentry : session.cache.entryOf? key = some entry)
    (hfresh : entry.isFresh session.cache.ttl (session.runAll events).now = true) :
    (session.runAll events).cache.entryOf? key = some entry := by
  -- fresh at the end of the run, the entry is fresh behind every event of it
  induction events generalizing session with
  | nil => exact hentry
  | cons event more ih =>
    have spec := step_spec rest event
    have hlater : (session.step event).now ≤ (session.runAll (event :: more)).now :=
      now_le_runAll spec.rest more
    have hstep : (session.step event).cache.entryOf? key = some entry :=
      spec.keeps key entry (hkept event List.mem_cons_self) hentry
        (Cache.isFresh_of_le hlater hfresh)
    refine ih spec.rest (fun other hother => hkept other (List.mem_cons_of_mem event hother))
      hstep ?_
    rw [spec.ttl_eq]
    exact hfresh

/-! ## Pages that were found -/

/-- A name that leads to a URL leads to a page: a location has an absolute form, which is none. -/
theorem Action.leads_page_of_find (rest : session.cache.AtRest) (parent : Option String)
    (name url : String) (h : ((find parent name).run session).1 = some url)
    (hurl : Path.isUrl url = true) :
    ∃ tried, session.Leads (candidatesFor parent name) tried (some (.page url)) := by
  obtain ⟨tried, found?, hleads, hresult, -⟩ := find_leads rest parent name
  rw [h] at hresult
  obtain ⟨candidate, rfl, hplace⟩ := Option.map_eq_some_iff.1 hresult.symm
  cases candidate with
  | page other =>
    obtain rfl : other = url := hplace
    exact ⟨tried, hleads⟩
  | file location =>
    have hnot := isUrl_absolute session.files location
    rw [show session.files.absolute location = url from hplace, hurl] at hnot
    cases hnot

namespace Search

variable {settings : Settings} {search : Search} {tried : List Candidate} {url : String}

/-- A search gives the URL of the page that it leads to, and reads what is on the way. -/
theorem run_of_leads (rest : session.cache.AtRest) (settings : Settings) (search : Search)
    (hleads : session.Leads (search.candidates settings) tried (some (.page url))) :
    ((search.action settings).run session).1 = some url ∧
      Reads session (session.readings tried (some (.page url)))
        ((search.action settings).run session).2 := by
  cases search with
  | byReference parent name =>
    obtain ⟨tried', found?, hleads', hresult, hreads, -⟩ :=
      Action.resolve_leads rest settings parent name
    obtain ⟨rfl, rfl⟩ := hleads.unique hleads'
    exact ⟨congrArg some hresult, hreads⟩
  | byName parent name =>
    obtain ⟨tried', found?, hleads', hresult, hreads, -⟩ := Action.find_leads rest parent name
    obtain ⟨rfl, rfl⟩ := hleads.unique hleads'
    exact ⟨hresult, hreads⟩

theorem isUrl_of_leads (hleads : session.Leads (search.candidates settings) tried
    (some (.page url))) : Path.isUrl url = true := by
  cases search with
  | byReference parent name => exact isUrl_of_mem_candidates hleads.mem
  | byName parent name => exact isUrl_of_mem_candidatesFor hleads.mem

end Search

/-- A page that is fresh in the cache is opened without asking the web: nothing changes but what the
cache notes about its callers. -/
theorem open_of_fresh {url : String} {content : Bytes} (rest : session.cache.AtRest)
    (hurl : Path.isUrl url = true) (h : session.cache.get? url session.now = some content) :
    ∃ cache, (Action.openUrl url).run session = (.ok content, { session with cache }) ∧
      (Action.openResource url).run session = (.ok (.page content), { session with cache }) ∧
      ((Action.readWhole url).run session).1 = .ok content := by
  have hopen := Action.openUrl_of_fresh rest h
  refine ⟨_, hopen, ?_, ?_⟩
  · rw [Action.openResource_of_url hurl, hopen]
    rfl
  · rw [Action.readWhole_of_url hurl, hopen]

/-- An entry is handed out as long as it is fresh and nobody forgets it, whatever happens. -/
theorem Traced.open_of_kept {ttl : Duration} {log : List Read} {url : String}
    {entry : Entry Bytes} (traced : Traced ttl log session) (hurl : Path.isUrl url = true)
    (hentry : session.cache.entryOf? url = some entry)
    (hkept : ∀ event ∈ events, event.forgets url = false)
    (hage : (session.runAll events).now - entry.storedAt ≤ ttl.toNanos) (web : Web) :
    let after := (session.runAll events).facing web
    ∃ cache, (Action.openUrl url).run after = (.ok entry.value, { after with cache }) ∧
      (Action.openResource url).run after = (.ok (.page entry.value), { after with cache }) ∧
      ((Action.readWhole url).run after).1 = .ok entry.value := by
  have hend := traced.runAll events
  have hfresh : entry.isFresh ttl (session.runAll events).now = true := decide_eq_true hage
  have hstays : (session.runAll events).cache.entryOf? url = some entry := by
    refine entryOf?_runAll traced.rest hkept hentry ?_
    rwa [traced.ttl_eq]
  apply open_of_fresh
  case rest => exact hend.rest
  case hurl => exact hurl
  case h =>
    -- the web of the one who opens it has no part in the lookup
    show (session.runAll events).cache.get? url (session.runAll events).now = some entry.value
    apply Cache.get?_of_entryOf? hstays
    rwa [hend.ttl_eq]

/-- When a search in the course of a run finds a page, it gives the URL that the page was opened
under. From then on, as long as the entry is not older than the time to live and nobody forgets it
on purpose, whoever opens this URL gets the content of the reading that stored the entry and reads
nothing from the web, whatever else happens and whatever the web has by then. The calls of a run
come one after the other, by however many resolvers they are made; `Cache.Hall` has the calls that
overlap. -/
theorem found_url_opens_from_cache {ttl : Duration} {opening : Session}
    (hnew : opening.cache = { ttl }) (past : List Event) (settings : Settings) (web : Web)
    (search : Search) {tried : List Candidate} {url : String}
    (hfound : ((opening.runAll past).facing web).Leads (search.candidates settings) tried
      (some (.page url))) :
    ((search.action settings).run ((opening.runAll past).facing web)).1 = some url ∧
      ∃ content storedAt,
        Read.last? (opening.log (past ++ [.task settings web (.search search)])) url =
          some ⟨url, .ok content, storedAt⟩ ∧
        ∀ (more : List Event) (web' : Web),
          let session := (opening.runAll
            (past ++ .task settings web (.search search) :: more)).facing web'
          (∀ event ∈ more, event.forgets url = false) →
          session.now - storedAt ≤ ttl.toNanos →
            ∃ cache, (Action.openUrl url).run session = (.ok content, { session with cache }) ∧
              (Action.openResource url).run session =
                (.ok (.page content), { session with cache }) ∧
              ((Action.readWhole url).run session).1 = .ok content := by
  have htraced : Traced ttl (opening.log past) (opening.runAll past) :=
    (Traced.opening hnew).runAll past
  have hrest : ((opening.runAll past).facing web).cache.AtRest := htraced.rest
  obtain ⟨hresult, hreads⟩ := Search.run_of_leads hrest settings search hfound
  obtain ⟨entry, hentry, hfresh, -⟩ := hreads.stored hfound
  -- the search as one more step of the run
  let call : Event := .task settings web (.search search)
  have hcall : ((opening.runAll past).step call).cache.entryOf? url = some entry := hentry
  have hafter : Traced ttl (opening.log (past ++ [call])) ((opening.runAll past).step call) := by
    rw [Session.log_append, Session.log, Session.log, List.append_nil]
    exact htraced.step call
  refine ⟨hresult, entry.value, entry.storedAt, hafter.recorded url entry hcall, ?_⟩
  intro more web' session hkept hage
  have hrun : opening.runAll (past ++ call :: more) =
      ((opening.runAll past).step call).runAll more := Session.runAll_append opening past _
  have hsession : session = (((opening.runAll past).step call).runAll more).facing web' := by
    rw [← hrun]
  rw [hsession] at hage ⊢
  exact hafter.open_of_kept (Search.isUrl_of_leads hfound) hcall hkept hage web'

/-- A web with one page. -/
def pumpWeb : Web :=
  .known fun url => if url = "http://host/pump.bob" then .ok [1] else .error (.httpStatus url 404)

/-- A web without pages. -/
def emptyWeb : Web :=
  .known fun url => .error (.httpStatus url 404)

def newSession : Session where
  files := {}
  cache := { ttl := .ofSeconds 60 }
  web := emptyWeb

/-- A resolver opens a page that is not there. -/
def failedOpen (url : String) : Event :=
  .task (Config.resolved {}) emptyWeb (.openUrl url)

/-- The search for a page in the directory of the parent. -/
def pumpSearch : Search :=
  .byName (some "http://host/main.bob") "x/../pump.bob"

/-- The web loses the page after it was found in the directory of the parent. With a failed call, a
purge and a whole minute in between, the page is still opened as it was. -/
theorem found_url_opens_from_cache_after_loss :
    newSession.cache = { ttl := .ofSeconds 60 } ∧
      (∃ tried, ((newSession.runAll [failedOpen "http://host/pump.bob"]).facing pumpWeb).Leads
        (pumpSearch.candidates (Config.resolved {})) tried
        (some (.page "http://host/pump.bob"))) ∧
      ((Action.openUrl "http://host/pump.bob").run ((newSession.runAll
        [failedOpen "http://host/pump.bob",
          .task (Config.resolved {}) pumpWeb (.search pumpSearch),
          failedOpen "http://host/valve.bob", .purge, .wait 60000000000]).facing emptyWeb)).1 =
        .ok [1] := by
  have hnew : newSession.cache = { ttl := .ofSeconds 60 } := rfl
  have rest : ((newSession.runAll [failedOpen "http://host/pump.bob"]).facing
      pumpWeb).cache.AtRest := ((Traced.opening hnew).runAll _).rest
  obtain ⟨tried, hfound⟩ := Action.leads_page_of_find rest (some "http://host/main.bob")
    "x/../pump.bob" "http://host/pump.bob" (by decide +kernel) (by decide +kernel)
  obtain ⟨-, content, storedAt, hlast, hopens⟩ := found_url_opens_from_cache hnew
    [failedOpen "http://host/pump.bob"] (Config.resolved {}) pumpWeb pumpSearch hfound
  have hread : (Read.last? (newSession.log ([failedOpen "http://host/pump.bob"] ++
      [.task (Config.resolved {}) pumpWeb (.search pumpSearch)])) "http://host/pump.bob").map
        (fun read => (read.outcome.toOption, read.endedAt)) = some (some [1], 0) := by
    decide +kernel
  rw [hlast] at hread
  obtain ⟨rfl, rfl⟩ : content = [1] ∧ storedAt = 0 := by simpa [Except.toOption] using hread
  obtain ⟨cache, hopen, -⟩ := hopens
    [failedOpen "http://host/valve.bob", .purge, .wait 60000000000] emptyWeb
    (by simp [failedOpen, Event.forgets]) (by decide +kernel)
  exact ⟨hnew, ⟨tried, hfound⟩, congrArg Prod.fst hopen⟩

end Locator.Resolver
