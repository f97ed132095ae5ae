import Locator.Proofs.Http.Reading
import Locator.Proofs.Resolver.Runs

/-!
# Pages are had as a whole or not at all

Servers may say nothing, refuse, or break off in the middle of a page. Whatever they do, a reader
gives the whole page or an error that says what happened, and only whole pages get into the cache.
So after a failure nothing is left of it: the next call for the page reads it again.

* `openUrl_of_error`, `openUrl_of_ok`: what a call that fails leaves behind, and what one gives
* `exists_task_of_mem_log`: whose web a page in the log of a run was read from
* `pages_whole_or_classified`: what reading comes to, and what caches hold of it
-/

namespace Locator.Resolver

open Http (Reader Transport)

variable {session : Session} {event : Event} {events : List Event} {read : Read} {url : String}
  {content : Bytes} {error : Error}

theorem Web.page_served (reader : Reader) (transport : Transport) (url : String) :
    (Web.served reader transport).page url = (reader.read transport url).1.outcome :=
  rfl

/-! ## Calls that fail -/

/-- A call that fails has asked the web, and leaves nothing of the page in the cache. -/
theorem openUrl_of_error (rest : session.cache.AtRest)
    (h : ((Action.openUrl url).run session).1 = .error error) :
    session.web.page url = .error error ∧
      ((Action.openUrl url).run session).2.cache.entryOf? url = none ∧
      ((Action.openUrl url).run session).2.cache.AtRest := by
  rw [Action.openUrl_result rest] at h
  obtain ⟨hmissing, hpage⟩ := Session.missing_of_pageAt_error h
  have hreads := Action.openUrl_reads rest url
  rw [hmissing] at hreads
  have hvalue := hreads.value_eq (List.mem_singleton_self url)
  rw [hpage] at hvalue
  exact ⟨hpage, Option.map_eq_none_iff.1 hvalue, hreads.rest⟩

/-- A call that succeeds gives what the cache has, or else what the web gives. -/
theorem openUrl_of_ok (rest : session.cache.AtRest)
    (h : ((Action.openUrl url).run session).1 = .ok content) :
    (∃ entry, session.cache.entryOf? url = some entry ∧ entry.value = content) ∨
      session.web.page url = .ok content := by
  rw [Action.openUrl_result rest, Session.pageAt] at h
  cases hget : session.cache.get? url session.now with
  | some cached =>
    rw [hget] at h
    obtain ⟨entry, hentry, -, hvalue⟩ := Cache.exists_entryOf?_of_get? hget
    exact .inl ⟨entry, hentry, hvalue.trans (Except.ok.inj h)⟩
  | none =>
    rw [hget] at h
    exact .inr h

/-- Where the cache has nothing, the web is asked. -/
theorem openUrl_of_no_entry (rest : session.cache.AtRest)
    (h : session.cache.entryOf? url = none) :
    ((Action.openUrl url).run session).1 = session.web.page url ∧
      ((Action.openUrl url).run session).2.fetched = session.fetched ++ [url] := by
  have hstale : session.cache.get? url session.now = none := by
    rw [Cache.get?_eq_entryOf?, h]
    rfl
  rw [Action.openUrl_of_stale rest hstale]
  exact ⟨rfl, rfl⟩

/-! ## Where the pages of a run come from -/

/-- Nothing but a task reads pages, and it reads them from its own web. -/
theorem exists_task_of_mem_readsIn (rest : session.cache.AtRest)
    (h : read ∈ session.readsIn event) :
    ∃ settings web task, event = .task settings web task ∧ read.outcome = web.page read.url := by
  have hfetches : (session.step event).fetched ≠ session.fetched := by
    intro hsame
    rw [readsIn_of_fetched_eq hsame] at h
    cases h
  cases event with
  | task settings web task =>
    obtain ⟨urls, hreads⟩ := onlyReads_task settings task (session.facing web) rest
    rw [readsIn_task hreads] at h
    exact ⟨settings, web, task, rfl, Web.outcome_of_mem_reads h⟩
  | purge =>
    obtain ⟨records, hpurge⟩ := run_purge session
    exact absurd (congrArg Session.fetched hpurge :) hfetches
  | invalidate key => exact absurd rfl hfetches
  | clear => exact absurd rfl hfetches
  | wait nanos => exact absurd rfl hfetches
  | change files => exact absurd rfl hfetches

theorem exists_task_of_mem_log (rest : session.cache.AtRest) (h : read ∈ session.log events) :
    ∃ settings web task, Event.task settings web task ∈ events ∧
      read.outcome = web.page read.url := by
  induction events generalizing session with
  | nil => cases h
  | cons event more ih =>
    rw [Session.log, List.mem_append] at h
    obtain hfirst | hlater := h
    · obtain ⟨settings, web, task, rfl, houtcome⟩ := exists_task_of_mem_readsIn rest hfirst
      exact ⟨settings, web, task, List.mem_cons_self, houtcome⟩
    · obtain ⟨settings, web, task, hmem, houtcome⟩ := ih (step_spec rest event).rest hlater
      exact ⟨settings, web, task, List.mem_cons_of_mem event hmem, houtcome⟩

/-! ## Whole pages -/

/-- Whoever uses a resolver asks servers for pages, and their responses for this URL are successes
or errors. -/
def Event.IsOrdinary (url : String) : Event → Prop
  | .task _ (.served reader transport) _ => reader.Ordinary transport url
  | .task _ (.known _) _ => False
  | _ => True

/-- In the course of these events there was a server that delivered the page with this content. -/
def Delivered (events : List Event) (url : String) (content : Bytes) : Prop :=
  ∃ settings reader transport task, Event.task settings (.served reader transport) task ∈ events ∧
    reader.Delivers transport url content

/-- Every entry that a run leaves is a page that was delivered as a whole. -/
theorem delivered_of_entryOf? {ttl : Duration} {opening : Session} {entry : Entry Bytes}
    (hnew : opening.cache = { ttl }) (hordinary : ∀ event ∈ events, event.IsOrdinary url)
    (hentry : (opening.runAll events).cache.entryOf? url = some entry) :
    Delivered events url entry.value := by
  have opened := Traced.opening hnew
  obtain ⟨hmem, -⟩ := Read.mem_of_last? ((opened.runAll events).recorded url entry hentry)
  obtain ⟨settings, web, task, htask, houtcome⟩ := exists_task_of_mem_log opened.rest hmem
  have hserved := hordinary _ htask
  cases web with
  | known page => exact absurd hserved id
  | served reader transport =>
    refine ⟨settings, reader, transport, task, htask, ?_⟩
    exact (Reader.Ordinary.outcome_ok_iff hserved).1 houtcome.symm

/-- Where responses are successes or errors, reading a page gives all of it, once a body came that
ends by itself, or the error that tells what happened; a text that is no URL of a page is not asked
for at all. Caches, however they have been used, have nothing but pages that were delivered as a
whole. After a call that fails there is nothing, so the next call, whenever and by whomever, reads
the page. -/
theorem pages_whole_or_classified (reader : Reader) (transport : Transport) (url : String)
    (hordinary : reader.Ordinary transport url) :
    (∀ content, (reader.read transport url).1.outcome = .ok content ↔
        reader.Delivers transport url content) ∧
      (∀ error, (reader.read transport url).1.outcome = .error error ↔
        reader.Fails transport url error) ∧
      ((∀ address, reader.parse url ≠ .ok (.page address)) →
        (reader.read transport url).1.requests = [] ∧ (reader.read transport url).2 = reader ∧
          ∀ other, reader.read other url = reader.read transport url) ∧
      ∀ (ttl : Duration) (opening : Session) (past : List Event), opening.cache = { ttl } →
        (∀ event ∈ past, event.IsOrdinary url) →
        let session := (opening.runAll past).facing (.served reader transport)
        let result := ((Action.openUrl url).run session).1
        let after := ((Action.openUrl url).run session).2
        (∀ entry, session.cache.entryOf? url = some entry → Delivered past url entry.value) ∧
          (∀ content, result = .ok content →
            Delivered past url content ∨ reader.Delivers transport url content) ∧
          ∀ error, result = .error error →
            reader.Fails transport url error ∧ after.cache.entryOf? url = none ∧
              ∀ (nanos : Nat) (web : Web),
                let next := (Action.openUrl url).run { after with now := after.now + nanos, web }
                next.1 = web.page url ∧ next.2.fetched = after.fetched ++ [url] := by
  refine ⟨fun content => hordinary.outcome_ok_iff, fun error => Reader.outcome_error_iff,
    Reader.read_of_not_page transport, ?_⟩
  intro ttl opening past hnew hpast session result after
  -- every entry goes back to a read of the run, and only bodies that end by themselves are read
  have rest : session.cache.AtRest := ((Traced.opening hnew).runAll past).rest
  have hentries (entry : Entry Bytes) (hentry : session.cache.entryOf? url = some entry) :
      Delivered past url entry.value := delivered_of_entryOf? hnew hpast hentry
  refine ⟨hentries, ?_, ?_⟩
  · intro content hok
    obtain ⟨entry, hentry, rfl⟩ | hpage := openUrl_of_ok rest hok
    · exact .inl (hentries entry hentry)
    · exact .inr (hordinary.outcome_ok_iff.1 hpage)
  · intro error herror
    obtain ⟨hpage, hnone, hrest⟩ := openUrl_of_error rest herror
    refine ⟨Reader.outcome_error_iff.1 hpage, hnone, fun nanos web => ?_⟩
    have hlater : { after with now := after.now + nanos, web }.cache.AtRest := hrest
    exact openUrl_of_no_entry hlater hnone

/-! A server that delivers a page in two chunks, with an interruption, and one that stops in the
middle of it. -/

def pumpUrl : String := "http://host/pump.bob"

def pumpAddress : Url.Address where
  scheme := .http
  host := .domain "host"
  port := none
  path := ["pump.bob".toList]
  query := none
  fragment := none

def interruption : IoError := ⟨.interrupted, "Interrupted system call (os error 4)"⟩

def responding (body : Stream.Source) : Transport :=
  fun _ _ => { answer := .response { status := 200, body } }

def deliveringTransport : Transport :=
  responding [.data [1, 2], .failure interruption, .data [3]]

def stoppingTransport : Transport :=
  responding [.data [1, 2], .failure .bodyTimeout]

def pageReader : Reader where
  timeout := .ofSeconds 2
  trustsAnyCertificate := false

theorem pumpUrl_page :
    Url.parse Url.Domain.toAscii? pumpUrl = .ok (.page pumpAddress) ∧
      pumpAddress.isRequestable = true ∧ Path.isUrl pumpUrl = true := by
  decide +kernel

theorem receives_responding (body : Stream.Source) :
    pageReader.Receives (responding body) pumpUrl (.response { status := 200, body }) :=
  ⟨pumpAddress, pumpUrl_page.1, rfl⟩

theorem ordinary_responding (body : Stream.Source) :
    pageReader.Ordinary (responding body) pumpUrl := by
  intro response h
  obtain rfl := Http.Answer.response.inj (Reader.receives_unique h (receives_responding body))
  exact .inl (by decide : 200 ≤ 200 ∧ 200 < 300)

/-- A page that stops in the middle is not had and not kept, and the next call, with a server that
goes on, has all of it. -/
theorem stopped_page_read_again :
    pageReader.Ordinary stoppingTransport pumpUrl ∧
      let stopping : Web := .served pageReader stoppingTransport
      let failedCall : Event := .task (Config.resolved {}) stopping (.openUrl pumpUrl)
      newSession.cache = { ttl := .ofSeconds 60 } ∧ failedCall.IsOrdinary pumpUrl ∧
        let call := (Action.openUrl pumpUrl).run ((newSession.runAll [failedCall]).facing stopping)
        call.1 = .error (.timeout pumpUrl 2000) ∧ call.2.cache.entryOf? pumpUrl = none ∧
          ((Action.openUrl pumpUrl).run
            { call.2 with
              now := call.2.now + 1
              web := .served pageReader deliveringTransport }).1 = .ok [1, 2, 3] := by
  have hordinary : pageReader.Ordinary stoppingTransport pumpUrl := ordinary_responding _
  refine ⟨hordinary, ?_⟩
  intro stopping failedCall
  have hcall : failedCall.IsOrdinary pumpUrl := hordinary
  refine ⟨rfl, hcall, ?_⟩
  intro call
  have herror : call.1 = .error (.timeout pumpUrl 2000) := by
    decide +kernel
  obtain ⟨-, -, -, hcaches⟩ :=
    pages_whole_or_classified pageReader stoppingTransport pumpUrl hordinary
  obtain ⟨-, -, hfailed⟩ := hcaches (.ofSeconds 60) newSession [failedCall] rfl
    (List.forall_mem_singleton.2 hcall)
  obtain ⟨-, hnone, hnext⟩ := hfailed _ herror
  refine ⟨herror, hnone, (hnext 1 _).1.trans ?_⟩
  exact Reader.outcome_ok_iff.2 ⟨_, receives_responding _, by decide, by decide⟩

end Locator.Resolver
