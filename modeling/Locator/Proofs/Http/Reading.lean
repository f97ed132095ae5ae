import Locator.Http.Reader
import Locator.Proofs.Stream.Whole

/-!
# What reading a page comes to

A reader gets an answer for the URL of a page and nothing at all for any other text. Of an answer
with a body it makes the whole body or an error: `Reader.Delivers` says when it is the body, and
`Reader.Fails` says which error there is otherwise. Neither looks at how the body is copied.

* `TimedOut`, `Response.ending`: how a body ends, and when the end is that the time was up
* `Response.ending_arrivals`: the ends of the bodies that come over connections
* `Reader.readBody_eq`: what becomes of a body, by its content and its end
* `Reader.outcome_of_receives`: what becomes of an answer
* `Reader.outcome_ok_iff`, `Reader.outcome_error_iff`: what reading comes to
* `Reader.read_of_not_page`: a text that is no URL of a page does not get as far as a request
-/

namespace Locator.Http

/-! ## Responses -/

/-- A failure that says that the time was up, by its kind or by what the client put inside. -/
def TimedOut (cause : IoError) : Prop :=
  cause.kind = .timedOut ∨ ∃ error, cause.detail = .client error ∧ error.isTimeout = true

theorem timedOut_iff {cause : IoError} :
    TimedOut cause ↔
      (cause.clientError?.any (·.isTimeout) || decide (cause.kind = .timedOut)) = true := by
  obtain ⟨kind, detail⟩ := cause
  cases detail <;> simp [TimedOut, IoError.clientError?, or_comm]

instance (cause : IoError) : Decidable (TimedOut cause) :=
  decidable_of_iff _ timedOut_iff.symm

/-- How a body ends. -/
inductive Ending where
  | clean
  /-- The time was up before all of it was there. -/
  | timeout
  | failure (cause : IoError)
  deriving DecidableEq, Repr

namespace Response

/-- All chunks of the body that arrive, put together. -/
def content (response : Response) : Bytes :=
  response.body.chunks.flatten

def ending (response : Response) : Ending :=
  match response.body.failure? with
  | none => .clean
  | some cause => if TimedOut cause then .timeout else .failure cause

/-- The status is one of success. -/
def Succeeds (response : Response) : Prop :=
  200 ≤ response.status ∧ response.status < 300

/-- The status is one of an error, of the reader or of the server. -/
def IsRefused (response : Response) : Prop :=
  400 ≤ response.status ∧ response.status < 600

/-- The status is one of neither: of an interim reply, of a redirect, or beyond all classes. -/
def IsOdd (response : Response) : Prop :=
  response.status < 200 ∨ (300 ≤ response.status ∧ response.status < 400) ∨ 600 ≤ response.status

instance (response : Response) : Decidable response.Succeeds :=
  inferInstanceAs (Decidable (_ ∧ _))

instance (response : Response) : Decidable response.IsRefused :=
  inferInstanceAs (Decidable (_ ∧ _))

/-- What came is taken for a page: the status is none of an error, and the body ended by itself. -/
def Passes (response : Response) : Prop :=
  ¬response.IsRefused ∧ response.ending = .clean

instance (response : Response) : Decidable response.Passes :=
  inferInstanceAs (Decidable (_ ∧ _))

variable {response : Response}

theorem Succeeds.not_isRefused (h : response.Succeeds) : ¬response.IsRefused := by
  rw [Succeeds] at h
  rw [IsRefused]
  omega

theorem isOdd_iff (h : ¬response.Succeeds) : response.IsOdd ↔ ¬response.IsRefused := by
  rw [Succeeds] at h
  rw [IsOdd, IsRefused]
  omega

/-- What came of a body is what it ends with: all of it, a failure, or a wait in vain, of which the
client says that the time was up. -/
theorem ending_arrivals (status : Nat) (body : Body) :
    ({ status, body := body.arrivals } : Response).ending =
      match body with
      | .whole _ => .clean
      | .broken => .failure .brokenBody
      | .waiting => .timeout := by
  cases body with
  | whole bytes =>
    have hfailure : (Stream.Source.ofBytes bytes).failure? = none := (Stream.ofBytes_eq bytes).2
    rw [ending, Body.arrivals, hfailure]
  | broken => rfl
  | waiting => rfl

end Response

namespace Reader

/-! ## What there is to read -/

section

variable (reader : Reader) (transport : Transport) (url : String)

/-- The URL is the one of a page, and this answers the request for it. -/
def Receives (answer : Answer) : Prop :=
  ∃ address, reader.parse url = .ok (.page address) ∧
    (transport (reader.clientFor address) address).answer = answer

/-- A response of success comes, and its body, which ends by itself, has this content. -/
def Delivers (content : Bytes) : Prop :=
  ∃ response, reader.Receives transport url (.response response) ∧ response.Succeeds ∧
    response.ending = .clean ∧ response.content = content

/-- The error that says that the time is up. -/
def lateError : Error :=
  .timeout url (min reader.timeout.toMillis (UInt64.size - 1))

/-- The ways to fail, each with its error. -/
inductive Fails : Error → Prop
  | unparsable {fault : Url.Fault} (hparse : reader.parse url = .error fault) :
    Fails (.invalidUrl url fault)
  | foreign {scheme : String} {requestable : Bool}
    (hparse : reader.parse url = .ok (.foreign scheme requestable)) :
    Fails (.unsupportedScheme url scheme)
  | late (h : reader.Receives transport url .timeout) : Fails (reader.lateError url)
  | unanswered {fault : FetchFault} (h : reader.Receives transport url (.failure fault)) :
    Fails (.fetch url fault)
  | refused {response : Response} (h : reader.Receives transport url (.response response))
    (hstatus : response.IsRefused) : Fails (.httpStatus url response.status)
  | lateBody {response : Response} (h : reader.Receives transport url (.response response))
    (hstatus : ¬response.IsRefused) (hending : response.ending = .timeout) :
    Fails (reader.lateError url)
  | brokenBody {response : Response} {cause : IoError}
    (h : reader.Receives transport url (.response response)) (hstatus : ¬response.IsRefused)
    (hending : response.ending = .failure cause) : Fails (.fetch url (.body cause))

/-- A response, if there is one, is either a success or an error. -/
def Ordinary : Prop :=
  ∀ response, reader.Receives transport url (.response response) →
    response.Succeeds ∨ response.IsRefused

end

/-! ## What is made of it -/

variable {reader : Reader} {transport : Transport} {url : String} {response : Response}
  {answer : Answer} {content : Bytes} {error : Error}

/-- A body is taken as a whole or not at all. -/
theorem readBody_eq (reader : Reader) (url : String) (response : Response) :
    reader.readBody url response.body =
      match response.ending with
      | .clean => .ok response.content
      | .timeout => .error (reader.lateError url)
      | .failure cause => .error (.fetch url (.body cause)) := by
  obtain ⟨hresult, hwritten⟩ := Stream.copy_eq response.body
  simp only [readBody, hresult, hwritten, Response.ending]
  cases response.body.failure? with
  | none => rfl
  | some cause =>
    simp only [Stream.tally, timeoutError, lateError, Duration.toNat_clampedMillis, ← timedOut_iff]
    split <;> rfl

theorem outcomeOf_response (reader : Reader) (url : String) (response : Response) :
    reader.outcomeOf url (.response response) =
      if response.IsRefused then .error (.httpStatus url response.status)
      else reader.readBody url response.body :=
  ite_congr (by simp [Response.IsRefused]) (fun _ => rfl) fun _ => rfl

theorem receives_unique {other : Answer} (h : reader.Receives transport url answer)
    (h' : reader.Receives transport url other) : answer = other := by
  obtain ⟨address, hparse, rfl⟩ := h
  obtain ⟨address', hparse', rfl⟩ := h'
  cases hparse.symm.trans hparse'
  rfl

theorem outcome_of_receives (h : reader.Receives transport url answer) :
    (reader.read transport url).1.outcome = reader.outcomeOf url answer := by
  obtain ⟨address, hparse, rfl⟩ := h
  simp only [read, hparse]

theorem outcome_of_unparsable {fault : Url.Fault} (h : reader.parse url = .error fault) :
    (reader.read transport url).1.outcome = .error (.invalidUrl url fault) := by
  simp only [read, h]

theorem outcome_of_foreign {scheme : String} {requestable : Bool}
    (h : reader.parse url = .ok (.foreign scheme requestable)) :
    (reader.read transport url).1.outcome = .error (.unsupportedScheme url scheme) := by
  simp only [read, h]

/-- Reading a page changes nothing but which clients are there. -/
theorem exists_clients (reader : Reader) (transport : Transport) (url : String) :
    ∃ clients, (reader.read transport url).2 = { reader with clients } := by
  unfold read
  split
  · exact ⟨reader.clients, rfl⟩
  · exact ⟨reader.clients, rfl⟩
  · exact ⟨_, rfl⟩

/-- The clients have no part in what is read. -/
theorem outcome_with_clients (reader : Reader) (clients : Clients) (transport : Transport)
    (url : String) :
    (({ reader with clients } : Reader).read transport url).1.outcome =
      (reader.read transport url).1.outcome := by
  simp only [read]
  split <;> rfl

theorem nanos_with_clients (reader : Reader) (clients : Clients) (transport : Transport)
    (url : String) :
    (({ reader with clients } : Reader).read transport url).1.nanos =
      (reader.read transport url).1.nanos := by
  simp only [read]
  split <;> rfl

/-- A text that is no URL of a page does not get as far as a request: the transport has no part in
what is read. -/
theorem read_of_not_page (transport : Transport)
    (h : ∀ address, reader.parse url ≠ .ok (.page address)) :
    (reader.read transport url).1.requests = [] ∧ (reader.read transport url).2 = reader ∧
      ∀ other, reader.read other url = reader.read transport url := by
  cases hparse : reader.parse url with
  | error fault => simp [read, hparse]
  | ok reference =>
    cases reference with
    | foreign scheme requestable => simp [read, hparse]
    | page address => exact absurd hparse (h address)

/-- Without an answer there is an error that says why. -/
theorem fails_or_receives (reader : Reader) (transport : Transport) (url : String) :
    (∃ error, (reader.read transport url).1.outcome = .error error ∧
        reader.Fails transport url error) ∨
      ∃ answer, reader.Receives transport url answer := by
  cases hparse : reader.parse url with
  | error fault => exact .inl ⟨_, outcome_of_unparsable hparse, .unparsable hparse⟩
  | ok reference =>
    cases reference with
    | foreign scheme requestable => exact .inl ⟨_, outcome_of_foreign hparse, .foreign hparse⟩
    | page address => exact .inr ⟨_, address, hparse, rfl⟩

/-- What becomes of an answer: the content of a body that ends by itself, or a failure. -/
theorem ok_or_fails (h : reader.Receives transport url answer) :
    (∃ response, answer = .response response ∧ response.Passes ∧
        reader.outcomeOf url answer = .ok response.content) ∨
      ∃ error, reader.outcomeOf url answer = .error error ∧
        reader.Fails transport url error := by
  -- each way to fail is one case: too late, no answer, refused, the body too late, the body broken
  cases answer with
  | timeout =>
    refine .inr ⟨_, ?_, .late h⟩
    rw [outcomeOf, timeoutError, Duration.toNat_clampedMillis, lateError]
  | failure fault => exact .inr ⟨_, rfl, .unanswered h⟩
  | response response =>
    rw [outcomeOf_response]
    by_cases hstatus : response.IsRefused
    · rw [if_pos hstatus]
      exact .inr ⟨_, rfl, .refused h hstatus⟩
    · rw [if_neg hstatus, readBody_eq]
      cases hending : response.ending with
      | clean => exact .inl ⟨response, rfl, ⟨hstatus, hending⟩, rfl⟩
      | timeout => exact .inr ⟨_, rfl, .lateBody h hstatus hending⟩
      | failure cause => exact .inr ⟨_, rfl, .brokenBody h hstatus hending⟩

/-- A page is read when a response that is no error has a body that ends by itself. -/
theorem outcome_ok_iff :
    (reader.read transport url).1.outcome = .ok content ↔
      ∃ response, reader.Receives transport url (.response response) ∧ response.Passes ∧
        response.content = content := by
  constructor
  · intro hok
    obtain ⟨error, herror, -⟩ | ⟨answer, h⟩ := reader.fails_or_receives transport url
    · cases hok.symm.trans herror
    · rw [outcome_of_receives h] at hok
      obtain ⟨response, rfl, hpasses, hcontent⟩ | ⟨error, herror, -⟩ := ok_or_fails h
      · exact ⟨response, h, hpasses, Except.ok.inj (hcontent.symm.trans hok)⟩
      · cases hok.symm.trans herror
  · rintro ⟨response, h, ⟨hstatus, hending⟩, rfl⟩
    rw [outcome_of_receives h, outcomeOf_response, if_neg hstatus, readBody_eq, hending]

/-- A response is a page or an error, and the error of its status if that is one of an error. -/
theorem outcome_of_response (h : reader.Receives transport url (.response response)) :
    (∀ content, (reader.read transport url).1.outcome = .ok content ↔
        response.Passes ∧ response.content = content) ∧
      ((reader.read transport url).1.outcome = .error (.httpStatus url response.status) ↔
        response.IsRefused) := by
  constructor
  · intro content
    refine outcome_ok_iff.trans ⟨?_, fun hpasses => ⟨response, h, hpasses⟩⟩
    rintro ⟨other, hother, hpasses⟩
    obtain rfl := Answer.response.inj (receives_unique h hother)
    exact hpasses
  · rw [outcome_of_receives h, outcomeOf_response]
    by_cases hstatus : response.IsRefused
    · simp [hstatus]
    · rw [if_neg hstatus, readBody_eq]
      cases response.ending <;> simp [hstatus, lateError]

/-- A failure is what reading ends with. -/
theorem Fails.outcome_eq (h : reader.Fails transport url error) :
    (reader.read transport url).1.outcome = .error error := by
  cases h with
  | unparsable hparse => exact outcome_of_unparsable hparse
  | foreign hparse => exact outcome_of_foreign hparse
  | late h =>
    rw [outcome_of_receives h, outcomeOf, timeoutError, Duration.toNat_clampedMillis, lateError]
  | unanswered h => exact outcome_of_receives h
  | refused h hstatus => rw [outcome_of_receives h, outcomeOf_response, if_pos hstatus]
  | lateBody h hstatus hending =>
    rw [outcome_of_receives h, outcomeOf_response, if_neg hstatus, readBody_eq, hending]
  | brokenBody h hstatus hending =>
    rw [outcome_of_receives h, outcomeOf_response, if_neg hstatus, readBody_eq, hending]

theorem outcome_error_iff :
    (reader.read transport url).1.outcome = .error error ↔ reader.Fails transport url error := by
  refine ⟨fun herror => ?_, Fails.outcome_eq⟩
  obtain ⟨other, hother, hfails⟩ | ⟨answer, h⟩ := reader.fails_or_receives transport url
  · rwa [Except.error.inj (herror.symm.trans hother)]
  · rw [outcome_of_receives h] at herror
    obtain ⟨response, -, -, hok⟩ | ⟨other, hother, hfails⟩ := ok_or_fails h
    · cases hok.symm.trans herror
    · rwa [Except.error.inj (herror.symm.trans hother)]

/-- Where every response is a success or an error, a page is read when its body is delivered. -/
theorem Ordinary.outcome_ok_iff (hordinary : reader.Ordinary transport url) :
    (reader.read transport url).1.outcome = .ok content ↔
      reader.Delivers transport url content := by
  refine Reader.outcome_ok_iff.trans (exists_congr fun response => and_congr_right fun h => ?_)
  have hstatus : ¬response.IsRefused ↔ response.Succeeds :=
    ⟨(hordinary response h).resolve_right, Response.Succeeds.not_isRefused⟩
  rw [Response.Passes, hstatus, and_assoc]

end Reader

end Locator.Http
