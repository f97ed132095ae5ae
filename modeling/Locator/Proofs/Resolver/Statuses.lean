import Locator.Proofs.Resolver.WholePages

/-!
# Pages behind unusual statuses

A reader takes the statuses from 400 to 599 for errors and every other one for a success: also the
one of a redirect that leads nowhere, and numbers beyond all classes. What comes with such a status
is opened, kept and found like any page.

* `opens_of_stale`, `canOpenUrl_iff_of_stale`, `find_url_iff_of_stale`: a page that is not fresh in
  the cache can be opened and is found if the web has it
* `unsuccessful_statuses`: what becomes of a response that is no success
-/

namespace Locator.Resolver

open Http (Reader Transport Response Network)

variable {session : Session} {url : String}

/-! ## Pages that are not fresh -/

theorem toOption_eq_some_iff {result : Except Error Bytes} {content : Bytes} :
    result.toOption = some content ↔ result = .ok content := by
  cases result <;> simp [Except.toOption]

theorem opens_of_stale (hstale : session.cache.get? url session.now = none)
    (tried : List Candidate) :
    session.opens (session.momentAfter tried) (.page url) =
      (session.web.page url).toOption.isSome := by
  have hlater : session.cache.get? url (session.momentAfter tried) = none :=
    Cache.get?_eq_none_of_le (Nat.le_add_right _ _) hstale
  rw [Session.opens, Session.pageAt_of_stale hlater]

theorem canOpenUrl_of_stale (rest : session.cache.AtRest) (hurl : Path.isUrl url = true)
    (hstale : session.cache.get? url session.now = none) :
    ((Action.canOpenUrl url).run session).1 = (session.web.page url).toOption.isSome := by
  have hcandidate (other : String) (h : Candidate.page url = .page other) :
      Path.isUrl other = true := by
    rwa [← Candidate.page.inj h]
  obtain ⟨htried, -⟩ := Action.tryCandidate_spec rest hcandidate
  rw [← opens_of_stale hstale [], session.momentAfter_nil, ← htried]
  rfl

/-- A URL is found under its own name if the web has the page. -/
theorem find_url_iff_of_stale (rest : session.cache.AtRest) (hurl : Path.isUrl url = true)
    (hstale : session.cache.get? url session.now = none) (parent : Option String) :
    ((Action.find parent url).run session).1 = some url ↔
      (session.web.page url).toOption.isSome = true := by
  constructor
  · intro hfound
    obtain ⟨tried, hleads⟩ := Action.leads_page_of_find rest parent url url hfound hurl
    have hopens := hleads.opened _ rfl
    rwa [opens_of_stale hstale] at hopens
  · intro hpage
    have hopens : session.opens (session.momentAfter []) (.page url) = true := by
      rwa [opens_of_stale hstale]
    -- the URL itself is the first candidate, so it is found if its page can be had
    have hleads : session.Leads (candidatesFor parent url) [] (some (.page url)) := {
      front := by simp [candidatesFor, hurl]
      all_tried := nofun
      failed := by simp
      opened := fun candidate h => Option.some.inj h ▸ hopens }
    obtain ⟨tried, found?, hleads', hresult, -⟩ := Action.find_leads rest parent url
    obtain ⟨rfl, rfl⟩ := hleads.unique hleads'
    exact hresult

/-! ## Responses that are no successes -/

/-- A response that is no success fails with its status if the status is one of an error. With any
other status it is taken for the page, once its body ends by itself: it is opened, kept in the
cache, and found. -/
theorem unsuccessful_statuses {reader : Reader} {transport : Transport} {response : Response}
    (hreceives : reader.Receives transport url (.response response))
    (hstatus : ¬response.Succeeds) :
    let outcome := (reader.read transport url).1.outcome
    let mistaken := response.IsOdd ∧ response.ending = .clean
    (outcome = .error (.httpStatus url response.status) ↔ response.IsRefused) ∧
      (∀ content, outcome = .ok content ↔ mistaken ∧ response.content = content) ∧
      ∀ session : Session, session.cache.AtRest → session.web = .served reader transport →
        session.cache.get? url session.now = none →
        let opened := (Action.openUrl url).run session
        opened.1 = outcome ∧
          (∀ content, (opened.2.cache.entryOf? url).map (·.value) = some content ↔
            mistaken ∧ response.content = content) ∧
          (Path.isUrl url = true →
            (((Action.canOpenUrl url).run session).1 = true ↔ mistaken) ∧
              ∀ parent, ((Action.find parent url).run session).1 = some url ↔ mistaken) := by
  intro outcome mistaken
  -- of the responses that are no successes, just the odd ones are taken for pages
  have hpasses : response.Passes ↔ mistaken :=
    and_congr_left fun _ => (Response.isOdd_iff hstatus).symm
  obtain ⟨hok, herror⟩ := Reader.outcome_of_response hreceives
  simp only [hpasses] at hok
  have hsome : outcome.toOption.isSome = true ↔ mistaken := by
    simp only [Option.isSome_iff_exists, toOption_eq_some_iff]
    exact ⟨fun ⟨content, h⟩ => ((hok content).1 h).1, fun h => ⟨_, (hok _).2 ⟨h, rfl⟩⟩⟩
  refine ⟨herror, hok, fun session rest hweb hstale => ?_⟩
  have hpage : session.web.page url = outcome := by
    rw [hweb, Web.page_served]
  intro opened
  have hmissing := Action.openUrl_reads rest url
  rw [Session.missing_of_stale hstale] at hmissing
  refine ⟨?_, fun content => ?_, fun hurl => ⟨?_, fun parent => ?_⟩⟩
  · rw [← hpage, ← Session.pageAt_of_stale hstale]
    exact Action.openUrl_result rest url
  · rw [hmissing.value_eq (List.mem_singleton_self url), hpage, toOption_eq_some_iff]
    exact hok content
  · rw [canOpenUrl_of_stale rest hurl hstale, hpage, hsome]
  · rw [find_url_iff_of_stale rest hurl hstale, hpage, hsome]

/-! A server that moves a page and does not say where to. -/

def movedReply : Http.Arrived where
  bytes := Bytes.ofString "HTTP/1.1 302 Found\r\nContent-Length: 4\r\n\r\nmove"
  stalls := false

def movedNetwork : Network :=
  fun _ => some movedReply

def movedResponse : Response where
  status := 302
  body := .ofBytes (Bytes.ofString "move")

/-- The reply is read as it is meant, and leads nowhere. -/
theorem receive_movedReply :
    let head : Http.Head := ⟨false, 302, [("content-length", Bytes.ofString "4")]⟩
    Http.Reply.receive movedReply = .reply head (.whole (Bytes.ofString "move")) ∧
      Http.redirect? Url.Domain.toAscii? pumpAddress head = none := by
  decide +kernel

/-- Without a location the redirect is the reply that the request ends with. -/
theorem receives_movedResponse :
    pageReader.Receives (movedNetwork.transport pageReader.timeout) pumpUrl
      (.response movedResponse) := by
  obtain ⟨hparse, hrequestable, -⟩ := pumpUrl_page
  obtain ⟨hreply, hnowhere⟩ := receive_movedReply
  refine ⟨pumpAddress, hparse, ?_⟩
  rw [Network.transport, Network.transportFor, if_neg (by decide), hrequestable,
    Network.exchange]
  simp only [movedNetwork, hreply, hnowhere]
  rfl

/-- The page of a redirect that leads nowhere is opened, kept and found. -/
theorem redirect_mistaken_for_page :
    let transport := movedNetwork.transport pageReader.timeout
    let session : Session := { newSession with web := .served pageReader transport }
    pageReader.Receives transport pumpUrl (.response movedResponse) ∧
      ¬movedResponse.Succeeds ∧ session.cache.AtRest ∧
      session.cache.get? pumpUrl session.now = none ∧
      let opened := (Action.openUrl pumpUrl).run session
      opened.1 = .ok (Bytes.ofString "move") ∧
        (opened.2.cache.entryOf? pumpUrl).map (·.value) = some (Bytes.ofString "move") ∧
        ((Action.canOpenUrl pumpUrl).run session).1 = true ∧
        ((Action.find none pumpUrl).run session).1 = some pumpUrl := by
  intro transport session
  have hstatus : ¬movedResponse.Succeeds := by decide
  have rest : session.cache.AtRest := Cache.atRest_empty _
  have hstale : session.cache.get? pumpUrl session.now = none := rfl
  have hmistaken : movedResponse.IsOdd ∧ movedResponse.ending = .clean :=
    ⟨.inr (.inl (by decide)), by decide⟩
  have hcontent : movedResponse.content = Bytes.ofString "move" := by decide
  obtain ⟨-, hok, hsession⟩ := unsuccessful_statuses receives_movedResponse hstatus
  obtain ⟨hopened, hkept, hfound⟩ := hsession session rest rfl hstale
  obtain ⟨hprobe, hfind⟩ := hfound pumpUrl_page.2.2
  refine ⟨receives_movedResponse, hstatus, rest, hstale, ?_, ?_, hprobe.2 hmistaken,
    (hfind none).2 hmistaken⟩
  · exact hopened.trans ((hok _).2 ⟨hmistaken, hcontent⟩)
  · exact (hkept _).2 ⟨hmistaken, hcontent⟩

end Locator.Resolver
