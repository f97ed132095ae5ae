import Locator.Proofs.Cache.Entries
import Locator.Proofs.Http.Reading
import Locator.Resolver.Session

/-!
# Pages come through the cache

`Reads` says what using resources does to the cache, the web and the time: some pages are read from
the web, one after the other, and what the last reading of each of them gave takes the place of what
the cache had for it. Which pages have to be read for a call is `missing`, and what the call gives
is `pageAt`; both look at nothing but the session before the call.

* `Web.reads`, `Read.last?`: readings of pages, and the last one of a page among them
* `Reads.trans`: reading some pages and then others
* `Reads.entryOf?_of_fresh`, `Reads.entryOf?_cases`: what becomes of an entry, and where an entry
  comes from
* `openUrl_result`, `openUrl_reads`: the call for one page
-/

namespace Locator

namespace Resolver

/-! ## The web -/

/-- One reading of a page from the web: what came of it, and when. -/
structure Read where
  url : String
  outcome : Except Error Bytes
  endedAt : Nat

namespace Read

variable {log more : List Read} {read : Read} {url : String}

/-- What a cache keeps of a reading. -/
def stored? (read : Read) : Option (Entry Bytes) :=
  read.outcome.toOption.map fun content => ⟨content, read.endedAt⟩

/-- The last reading of a page. -/
def last? (log : List Read) (url : String) : Option Read :=
  (log.filter (·.url = url)).getLast?

theorem last?_append (log more : List Read) (url : String) :
    last? (log ++ more) url = (last? more url).or (last? log url) := by
  rw [last?, List.filter_append, List.getLast?_append]
  rfl

theorem last?_eq_none_iff : last? log url = none ↔ url ∉ log.map Read.url := by
  rw [last?, List.getLast?_eq_none_iff, List.filter_eq_nil_iff, List.mem_map]
  simp only [decide_eq_true_iff, not_exists, not_and]

theorem mem_of_last? (h : last? log url = some read) : read ∈ log ∧ read.url = url := by
  obtain ⟨hmem, hurl⟩ := List.mem_filter.1 (List.mem_of_getLast? h)
  exact ⟨hmem, of_decide_eq_true hurl⟩

theorem stored?_eq_some_iff {entry : Entry Bytes} :
    read.stored? = some entry ↔ read = ⟨read.url, .ok entry.value, entry.storedAt⟩ := by
  obtain ⟨url, outcome, endedAt⟩ := read
  obtain ⟨value, storedAt⟩ := entry
  cases outcome with
  | error error => simp [stored?, Except.toOption]
  | ok content => simp [stored?, Except.toOption]

end Read

namespace Web

variable {web other : Web} {url : String} {urls : List String} {now : Nat} {read : Read}

/-- What reading a page from the web comes to. -/
def page (web : Web) (url : String) : Except Error Bytes :=
  (web.read url).1.outcome

/-- How long reading a page takes. -/
def delay (web : Web) (url : String) : Nat :=
  (web.read url).1.nanos

/-- How long it takes to read pages one after the other. -/
def delays (web : Web) : List String → Nat
  | [] => 0
  | url :: rest => web.delay url + web.delays rest

/-- The readings of pages, one after the other from a moment on. -/
def reads (web : Web) (now : Nat) : List String → List Read
  | [] => []
  | url :: rest =>
    let endedAt := now + web.delay url
    ⟨url, web.page url, endedAt⟩ :: web.reads endedAt rest

/-- Reading from servers may build clients and does nothing else to what reads them. -/
theorem read_cases (web : Web) (url : String) :
    (web.read url).2 = web ∨ ∃ reader transport clients, web = .served reader transport ∧
      (web.read url).2 = .served { reader with clients } transport := by
  cases web with
  | known page => exact Or.inl rfl
  | served reader transport =>
    obtain ⟨clients, hclients⟩ := reader.exists_clients transport url
    refine Or.inr ⟨reader, transport, clients, rfl, ?_⟩
    rw [← hclients]
    rfl

/-- The web does not change when it is read. -/
theorem page_read (web : Web) (url other : String) :
    (web.read url).2.page other = web.page other := by
  obtain hsame | ⟨reader, transport, clients, rfl, hnext⟩ := web.read_cases url
  · rw [hsame]
  · rw [hnext]
    exact reader.outcome_with_clients clients transport other

theorem delay_read (web : Web) (url other : String) :
    (web.read url).2.delay other = web.delay other := by
  obtain hsame | ⟨reader, transport, clients, rfl, hnext⟩ := web.read_cases url
  · rw [hsame]
  · rw [hnext]
    exact reader.nanos_with_clients clients transport other

theorem delays_append (urls more : List String) :
    web.delays (urls ++ more) = web.delays urls + web.delays more := by
  induction urls with
  | nil => rw [List.nil_append, delays, Nat.zero_add]
  | cons url rest ih => rw [List.cons_append, delays, delays, ih, Nat.add_assoc]

theorem delays_congr (h : ∀ url, other.delay url = web.delay url) (urls : List String) :
    other.delays urls = web.delays urls := by
  induction urls with
  | nil => rfl
  | cons url rest ih => rw [delays, delays, h, ih]

theorem reads_append (now : Nat) (urls more : List String) :
    web.reads now (urls ++ more) =
      web.reads now urls ++ web.reads (now + web.delays urls) more := by
  induction urls generalizing now with
  | nil => rfl
  | cons url rest ih =>
    rw [List.cons_append, reads, reads, ih, delays, Nat.add_assoc, List.cons_append]

theorem reads_congr (hpage : ∀ url, other.page url = web.page url)
    (hdelay : ∀ url, other.delay url = web.delay url) (now : Nat) (urls : List String) :
    other.reads now urls = web.reads now urls := by
  induction urls generalizing now with
  | nil => rfl
  | cons url rest ih => rw [reads, reads, hpage, hdelay, ih]

theorem map_url_reads (now : Nat) (urls : List String) :
    (web.reads now urls).map Read.url = urls := by
  induction urls generalizing now with
  | nil => rfl
  | cons url rest ih => rw [reads, List.map_cons, ih]

theorem outcome_of_mem_reads (h : read ∈ web.reads now urls) :
    read.outcome = web.page read.url := by
  induction urls generalizing now with
  | nil => cases h
  | cons url rest ih =>
    rw [reads, List.mem_cons] at h
    obtain rfl | hrest := h
    · rfl
    · exact ih hrest

theorem last?_reads_of_not_mem (h : url ∉ urls) : Read.last? (web.reads now urls) url = none := by
  rwa [Read.last?_eq_none_iff, map_url_reads]

theorem exists_last?_reads (h : url ∈ urls) :
    ∃ endedAt, Read.last? (web.reads now urls) url = some ⟨url, web.page url, endedAt⟩ := by
  cases hlast : Read.last? (web.reads now urls) url with
  | none =>
    rw [Read.last?_eq_none_iff, map_url_reads] at hlast
    exact absurd h hlast
  | some read =>
    obtain ⟨hmem, rfl⟩ := Read.mem_of_last? hlast
    exact ⟨read.endedAt, by rw [← outcome_of_mem_reads hmem]⟩

theorem last?_reads_concat (now : Nat) (urls : List String) (url : String) :
    Read.last? (web.reads now (urls ++ [url])) url =
      some ⟨url, web.page url, now + web.delays (urls ++ [url])⟩ := by
  have hone : Read.last? (web.reads (now + web.delays urls) [url]) url =
      some ⟨url, web.page url, now + web.delays urls + web.delay url⟩ := by
    rw [reads, reads, Read.last?, List.filter_cons_of_pos (by exact decide_eq_true rfl)]
    rfl
  rw [reads_append, Read.last?_append, hone, Option.some_or, delays_append, delays, delays,
    Nat.add_zero, Nat.add_assoc]

end Web

/-! ## What reading pages does -/

/-- The pages at these URLs were read from the web, in this order, and what came of it is in the
cache. -/
structure Reads (before : Session) (urls : List String) (after : Session) : Prop where
  page_eq : ∀ url, after.web.page url = before.web.page url
  delay_eq : ∀ url, after.web.delay url = before.web.delay url
  ttl_eq : after.cache.ttl = before.cache.ttl
  now_eq : after.now = before.now + before.web.delays urls
  fetched_eq : after.fetched = before.fetched ++ urls
  rest : after.cache.AtRest
  leaves : ∀ key, key ∉ urls → Cache.Leaves key before.cache after.cache
  /-- What is stored for a page that was read is what its last reading gave. -/
  entry : ∀ url ∈ urls, after.cache.entryOf? url =
    (Read.last? (before.web.reads before.now urls) url).bind Read.stored?
  /-- Nothing was read that was fresh in the cache. -/
  stale : ∀ url ∈ urls, before.cache.get? url after.now = none

namespace Reads

variable {before middle after : Session} {urls more : List String} {url key : String}
  {entry : Entry Bytes} {now : Nat}

theorem of_eq (rest : before.cache.AtRest) (hcache : after.cache = before.cache)
    (hweb : after.web = before.web) (hnow : after.now = before.now)
    (hfetched : after.fetched = before.fetched) : Reads before [] after where
  page_eq _ := by rw [hweb]
  delay_eq _ := by rw [hweb]
  ttl_eq := by rw [hcache]
  now_eq := by rw [hnow, Web.delays, Nat.add_zero]
  fetched_eq := by rw [hfetched, List.append_nil]
  rest := by rwa [hcache]
  leaves key _ := hcache ▸ Cache.Leaves.refl key before.cache
  entry := by simp
  stale := by simp

theorem refl (rest : before.cache.AtRest) : Reads before [] before :=
  of_eq rest rfl rfl rfl rfl

theorem now_le (h : Reads before urls after) : before.now ≤ after.now := by
  rw [h.now_eq]
  exact Nat.le_add_right _ _

theorem get?_eq_of_not_mem (h : Reads before urls after) (hkey : key ∉ urls) (now : Nat) :
    after.cache.get? key now = before.cache.get? key now := by
  rw [Cache.get?_eq_entryOf?, Cache.get?_eq_entryOf?, (h.leaves key hkey).entryOf?_eq, h.ttl_eq]

theorem trans (h : Reads before urls middle) (h' : Reads middle more after) :
    Reads before (urls ++ more) after where
  page_eq url := (h'.page_eq url).trans (h.page_eq url)
  delay_eq url := (h'.delay_eq url).trans (h.delay_eq url)
  ttl_eq := h'.ttl_eq.trans h.ttl_eq
  now_eq := by
    rw [h'.now_eq, h.now_eq, Web.delays_append, Web.delays_congr h.delay_eq, Nat.add_assoc]
  fetched_eq := by rw [h'.fetched_eq, h.fetched_eq, List.append_assoc]
  rest := h'.rest
  leaves key hkey := by
    rw [List.mem_append, not_or] at hkey
    exact (h.leaves key hkey.1).trans (h'.leaves key hkey.2)
  entry url hurl := by
    -- the web does not change, so the later reads are the same from the start
    have hnow : before.web.reads (before.now + before.web.delays urls) more =
        middle.web.reads middle.now more := by
      rw [Web.reads_congr h.page_eq h.delay_eq, h.now_eq]
    rw [Web.reads_append, Read.last?_append, hnow]
    by_cases hmore : url ∈ more
    · obtain ⟨endedAt, hlast⟩ := Web.exists_last?_reads hmore
      rw [h'.entry url hmore, hlast, Option.some_or]
    · obtain hfirst | hsecond := List.mem_append.1 hurl
      · rw [(h'.leaves url hmore).entryOf?_eq, h.entry url hfirst,
          Web.last?_reads_of_not_mem hmore, Option.none_or]
      · exact absurd hsecond hmore
  stale url hurl := by
    by_cases hfirst : url ∈ urls
    · exact Cache.get?_eq_none_of_le h'.now_le (h.stale url hfirst)
    · have hsecond : url ∈ more := by
        obtain hin | hin := List.mem_append.1 hurl
        · exact absurd hin hfirst
        · exact hin
      rw [← h.get?_eq_of_not_mem hfirst]
      exact h'.stale url hsecond

/-- Reports and files have no part in it. -/
theorem congr {other : Session} (h : Reads before urls after) (hcache : other.cache = after.cache)
    (hweb : other.web = after.web) (hnow : other.now = after.now)
    (hfetched : other.fetched = after.fetched) : Reads before urls other := by
  have hboth := h.trans (of_eq h.rest hcache hweb hnow hfetched)
  rwa [List.append_nil] at hboth

/-- An entry that is still fresh afterwards has been left alone: its page was not read again. -/
theorem entryOf?_of_fresh (h : Reads before urls after)
    (hentry : before.cache.entryOf? url = some entry)
    (hfresh : entry.isFresh before.cache.ttl after.now = true) :
    after.cache.entryOf? url = some entry := by
  have hnot : url ∉ urls := by
    intro hmem
    have hstale := h.stale url hmem
    rw [Cache.get?_of_entryOf? hentry hfresh] at hstale
    cases hstale
  rw [(h.leaves url hnot).entryOf?_eq, hentry]

/-- What is stored afterwards was stored before, and its page was not read; or it is what the last
reading gave. -/
theorem entryOf?_cases (h : Reads before urls after)
    (hentry : after.cache.entryOf? url = some entry) :
    (Read.last? (before.web.reads before.now urls) url = none ∧
        before.cache.entryOf? url = some entry) ∨
      Read.last? (before.web.reads before.now urls) url =
        some ⟨url, .ok entry.value, entry.storedAt⟩ := by
  by_cases hmem : url ∈ urls
  · right
    rw [h.entry url hmem, Option.bind_eq_some_iff] at hentry
    obtain ⟨read, hlast, hread⟩ := hentry
    obtain ⟨-, rfl⟩ := Read.mem_of_last? hlast
    rw [hlast, ← Read.stored?_eq_some_iff.1 hread]
  · left
    rw [(h.leaves url hmem).entryOf?_eq] at hentry
    exact ⟨Web.last?_reads_of_not_mem hmem, hentry⟩

/-- A page that was read is stored if it was there, and nothing is if it was not. -/
theorem value_eq (h : Reads before urls after) (hurl : url ∈ urls) :
    (after.cache.entryOf? url).map (·.value) = (before.web.page url).toOption := by
  obtain ⟨endedAt, hlast⟩ := Web.exists_last?_reads hurl
  rw [h.entry url hurl, hlast, Option.bind_some, Read.stored?, Option.map_map]
  exact Option.map_id'

theorem entryOf?_concat (h : Reads before (urls ++ [url]) after) :
    after.cache.entryOf? url =
      (before.web.page url).toOption.map fun content => ⟨content, after.now⟩ := by
  rw [h.entry url (List.mem_append_right _ (List.mem_singleton_self url)),
    Web.last?_reads_concat, ← h.now_eq]
  rfl

end Reads

/-! ## Calls for a page -/

namespace Session

/-- What a call for a page at a moment gives: the page in the cache if it is fresh there, and what
the web has otherwise. -/
def pageAt (session : Session) (now : Nat) (url : String) : Except Error Bytes :=
  match session.cache.get? url now with
  | some content => .ok content
  | none => session.web.page url

/-- What has to be read from the web for a call for a page at a moment. -/
def missing (session : Session) (now : Nat) (url : String) : List String :=
  if (session.cache.get? url now).isSome then [] else [url]

variable {session : Session} {now : Nat} {url : String} {content : Bytes}

theorem pageAt_of_fresh (h : session.cache.get? url now = some content) :
    session.pageAt now url = .ok content := by
  rw [pageAt, h]

theorem pageAt_of_stale (h : session.cache.get? url now = none) :
    session.pageAt now url = session.web.page url := by
  rw [pageAt, h]

theorem missing_of_fresh (h : session.cache.get? url now = some content) :
    session.missing now url = [] := by
  rw [missing, h, Option.isSome_some, if_pos rfl]

theorem missing_of_stale (h : session.cache.get? url now = none) :
    session.missing now url = [url] := by
  rw [missing, h, Option.isSome_none, if_neg Bool.false_ne_true]

/-- A page that cannot be had is asked for every time. -/
theorem missing_of_pageAt_error {error : Error} (h : session.pageAt now url = .error error) :
    session.missing now url = [url] ∧ session.web.page url = .error error := by
  cases hget : session.cache.get? url now with
  | none => exact ⟨missing_of_stale hget, by rw [← h, pageAt_of_stale hget]⟩
  | some content =>
    rw [pageAt_of_fresh hget] at h
    cases h

end Session

/-- Pages that could not be had change nothing about what later calls come to. -/
theorem Reads.get?_eq {before after : Session} {urls : List String} {url : String} {now : Nat}
    (h : Reads before urls after)
    (hfailed : ∀ url ∈ urls, (before.web.page url).toOption = none) (hnow : after.now ≤ now) :
    after.cache.get? url now = before.cache.get? url now := by
  by_cases hmem : url ∈ urls
  · have hentry := h.value_eq hmem
    rw [hfailed url hmem, Option.map_eq_none_iff] at hentry
    rw [Cache.get?_eq_entryOf?, hentry, Cache.get?_eq_none_of_le hnow (h.stale url hmem)]
    rfl
  · exact h.get?_eq_of_not_mem hmem now

namespace Action

variable {α β : Type} {session : Session} {url : String} {content : Bytes}

theorem run_bind (action : Action α) (next : α → Action β) (session : Session) :
    (action >>= next).run session =
      (next (action.run session).1).run (action.run session).2 :=
  rfl

theorem openUrl_run (session : Session) (url : String) :
    (openUrl url).run session =
      match session.cache.enter url session.now with
      | .fresh content cache => (.ok content, { session with cache })
      | .blocked => (readPage url).run session
      | .vacant id cache =>
        let (result, after) := (readPage url).run { session with cache }
        (result,
          { after with cache := after.cache.settle url id (outcomeOf result) after.now }) := by
  simp only [openUrl, StateT.run_bind, StateT.run_get, pure_bind]
  cases session.cache.enter url session.now with
  | fresh content cache => rfl
  | blocked => rfl
  | vacant id cache => rfl

theorem openUrl_of_fresh (rest : session.cache.AtRest)
    (h : session.cache.get? url session.now = some content) :
    (openUrl url).run session =
      (.ok content, { session with
        cache := (session.cache.take url).2.drop (session.cache.take url).1 }) := by
  rw [openUrl_run, Cache.enter_eq rest.tidy, rest.free url, if_neg Bool.false_ne_true, h]

/-- The session once a page was read that was not fresh. -/
def afterMiss (session : Session) (url : String) : Session :=
  let fetch := (session.web.read url).1
  { session with
    cache := (session.cache.opened url).settle url (session.cache.take url).1
      (outcomeOf (session.web.page url)) (session.now + session.web.delay url)
    web := (session.web.read url).2
    now := session.now + session.web.delay url
    fetched := session.fetched ++ [url]
    requests := session.requests ++ fetch.requests
    records := session.records ++ fetch.records }

theorem openUrl_of_stale (rest : session.cache.AtRest)
    (h : session.cache.get? url session.now = none) :
    (openUrl url).run session = (session.web.page url, afterMiss session url) := by
  rw [openUrl_run, Cache.enter_eq rest.tidy, rest.free url, if_neg Bool.false_ne_true, h]
  rfl

theorem entryAfter_outcomeOf (result : Except Error Bytes) (now : Nat)
    (before : Option (Entry Bytes)) :
    (outcomeOf result).entryAfter now before =
      result.toOption.map fun content => ⟨content, now⟩ := by
  cases result <;> rfl

theorem reads_afterMiss (rest : session.cache.AtRest)
    (h : session.cache.get? url session.now = none) :
    Reads session [url] (afterMiss session url) := by
  -- the fetch leaves the page, stored when it came, or nothing where it failed
  have hentry : (afterMiss session url).cache.entryOf? url =
      (session.web.page url).toOption.map fun content =>
        ⟨content, (afterMiss session url).now⟩ := by
    rw [← entryAfter_outcomeOf _ _ (session.cache.entryOf? url)]
    exact Cache.entryOf?_settle_opened _ rest.tidy
  constructor
  case page_eq => exact fun other => Web.page_read session.web url other
  case delay_eq => exact fun other => Web.delay_read session.web url other
  case ttl_eq => exact (Cache.ttl_settle _).trans Cache.ttl_opened
  case now_eq => rw [afterMiss, Web.delays, Web.delays, Nat.add_zero]
  case fetched_eq => rfl
  case rest => exact rest.settle_opened _
  case leaves =>
    intro key hkey
    exact Cache.leaves_settle_opened _ rest.tidy fun heq => hkey (List.mem_singleton.2 heq)
  case entry =>
    intro other hother
    obtain rfl := List.mem_singleton.1 hother
    rw [hentry, ← List.nil_append [other], Web.last?_reads_concat]
    rfl
  case stale =>
    intro other hother
    obtain rfl := List.mem_singleton.1 hother
    exact Cache.get?_eq_none_of_le (Nat.le_add_right _ _) h

theorem openUrl_result (rest : session.cache.AtRest) (url : String) :
    ((openUrl url).run session).1 = session.pageAt session.now url := by
  cases hget : session.cache.get? url session.now with
  | some content => rw [openUrl_of_fresh rest hget, Session.pageAt_of_fresh hget]
  | none => rw [openUrl_of_stale rest hget, Session.pageAt_of_stale hget]

theorem openUrl_reads (rest : session.cache.AtRest) (url : String) :
    Reads session (session.missing session.now url) ((openUrl url).run session).2 := by
  cases hget : session.cache.get? url session.now with
  | none =>
    rw [openUrl_of_stale rest hget, Session.missing_of_stale hget]
    exact reads_afterMiss rest hget
  | some content =>
    rw [openUrl_of_fresh rest hget, Session.missing_of_fresh hget]
    have hrefl := Reads.refl rest
    exact {
      page_eq := hrefl.page_eq
      delay_eq := hrefl.delay_eq
      ttl_eq := Cache.ttl_take
      now_eq := hrefl.now_eq
      fetched_eq := hrefl.fetched_eq
      rest := rest.take_drop hget
      leaves := fun key _ => Cache.leaves_take_drop rest hget key
      entry := by simp
      stale := by simp }

theorem openUrl_files (url : String) (session : Session) :
    ((openUrl url).run session).2.files = session.files := by
  rw [openUrl_run]
  cases session.cache.enter url session.now <;> rfl

theorem canOpenUrl_run (candidate : String) (session : Session) :
    (canOpenUrl candidate).run session =
      if Path.isUrl candidate then
        match (openUrl candidate).run session with
        | (.ok _, after) => (true, after)
        | (.error error, after) =>
          (false, { after with
            records := after.records ++
              [.debug ("Probe of " ++ candidate ++ " failed: " ++ error.message)] })
      else (false, session) := by
  cases hurl : Path.isUrl candidate with
  | false =>
    simp only [canOpenUrl, hurl, Bool.not_false, if_true]
    rfl
  | true =>
    simp only [canOpenUrl, hurl, Bool.not_true, Bool.false_eq_true, if_false, if_true,
      StateT.run_bind]
    generalize (openUrl candidate).run session = opened
    obtain ⟨result, after⟩ := opened
    cases result <;> rfl

end Action

end Resolver

end Locator
