import Locator.Proofs.Http.Serial
import Mathlib.Data.List.Nodup

/-!
# Where certificates are trusted

At any moment of any run of a lobby no client was built twice, and the one that accepts any
certificate is there for pages of https only, where the reader was told to accept any
(`Lobby.Confined`). That is read off `Orderly`, which every run keeps, and off what the callers
have found out.

* `Caller.Fits.of_client?`: whoever has a client has the one that its page needs
* `Caller.outcome?_eq_of_ended`: in whatever order, a caller comes to what it would read by itself
* `Lobby.Orderly.confined`: a lobby in order keeps trust confined
* `Lobby.clients_confined`: so does every run; all runs can be brought to an end, and one of them
  reads the pages one after the other
-/

namespace Locator.Http

open Url (Address)

namespace Reader

variable {reader : Reader} {url : String} {address : Address}

/-- The URL is the one of a page. -/
def IsPage (reader : Reader) (url : String) : Prop :=
  ∃ address, reader.parse url = .ok (.page address)

/-- The URL is the one of a page of https. -/
def IsHttps (reader : Reader) (url : String) : Prop :=
  ∃ address, reader.parse url = .ok (.page address) ∧ address.scheme = .https

theorem isHttps_iff (h : reader.target url = .ok address) :
    reader.IsHttps url ↔ address.scheme = .https := by
  have hparse := target_eq_ok_iff.1 h
  unfold IsHttps
  simp [hparse]

theorem clientFor_eq_trusting_iff :
    reader.clientFor address = .trusting ↔
      address.scheme = .https ∧ reader.trustsAnyCertificate = true := by
  unfold clientFor
  by_cases h : address.scheme = .https <;> simp [h]

end Reader

/-! ## One caller -/

namespace Caller

variable {caller : Caller} {reader : Reader} {kind : ClientKind} {number : Nat}

/-- Has looked at its URL. -/
def Begun (caller : Caller) : Prop :=
  caller.phase ≠ .beginning

/-- Who asks for a client asks for the one that its page needs. -/
theorem Fits.of_kind? (fits : caller.Fits reader) (h : caller.kind? = some kind) :
    caller.Begun ∧ ∃ address, reader.target caller.url = .ok address ∧
      kind = reader.clientFor address := by
  obtain ⟨url, phase⟩ := caller
  cases phase with
  | beginning | refused error => cases h
  | asking address requester =>
    cases h
    obtain ⟨names, hkind, -⟩ := fits
    exact ⟨nofun, address, names, hkind⟩

/-- Who has a client asked for it, and has the one that is there. -/
theorem Fits.of_client? (fits : caller.Fits reader) (h : caller.client? = some (kind, number)) :
    caller.kind? = some kind ∧ kind ∈ reader.clients.built ∧
      number = reader.clients.number kind := by
  obtain ⟨url, phase⟩ := caller
  cases phase with
  | beginning | refused error => cases h
  | asking address requester =>
    obtain ⟨-, -, hclient⟩ := fits
    obtain ⟨found, hfound, heq⟩ := Option.map_eq_some_iff.1 h
    cases heq
    exact ⟨rfl, hclient number hfound⟩

/-- In whatever order, a caller comes to what it would read by itself. -/
theorem outcome?_eq_of_ended (fits : caller.Fits reader) (ended : caller.Ended)
    (transport : Transport) :
    caller.outcome? reader transport = some (reader.read transport caller.url).1.outcome := by
  obtain ⟨url, phase⟩ := caller
  cases phase with
  | beginning => cases ended
  | refused error =>
    rw [Reader.read_of_target_error fits]
    rfl
  | asking address requester =>
    obtain ⟨kind, stage⟩ := requester
    cases stage with
    | finished number =>
      obtain ⟨names, rfl, -⟩ := fits
      rw [Reader.outcome_of_receives ⟨address, Reader.target_eq_ok_iff.1 names, rfl⟩]
      rfl
    | _ => cases ended

theorem client?_isSome_of_ended (fits : caller.Fits reader) (ended : caller.Ended)
    (h : reader.IsPage caller.url) : caller.client?.isSome = true := by
  obtain ⟨address, hparse⟩ := h
  obtain ⟨url, phase⟩ := caller
  cases phase with
  | beginning => cases ended
  | refused error => cases fits.symm.trans (Reader.target_eq_ok_iff.2 hparse)
  | asking address' requester =>
    obtain ⟨kind, stage⟩ := requester
    cases stage with
    | finished number => rfl
    | _ => cases ended

/-- The request goes through the client that the caller has. -/
theorem outcome_eq_of_client? (fits : caller.Fits reader) (h : caller.client? = some (kind, number))
    {address : Address} (names : reader.target caller.url = .ok address) {transport : Transport}
    {outcome : Except Error Bytes} (houtcome : caller.outcome? reader transport = some outcome) :
    outcome = reader.outcomeOf caller.url (transport kind address).answer := by
  obtain ⟨url, phase⟩ := caller
  cases phase with
  | beginning | refused error => cases h
  | asking address' requester =>
    obtain ⟨names', -, -⟩ := fits
    cases names.symm.trans names'
    obtain ⟨kind', stage⟩ := requester
    cases stage with
    | finished number =>
      cases h
      cases houtcome
      rfl
    | _ => cases houtcome

/-- A URL that was refused, or will be, leads to no client, and looking at it changes nothing that
the others see. -/
theorem unchanged_of_not_isPage (fits : caller.Fits reader) (h : ¬ reader.IsPage caller.url)
    {next : Caller} {later : Reader} {records : List Log.Record}
    (advances : caller.Advances reader next later records) : later = reader ∧ records = [] := by
  -- whoever asks for a client has found out which page the URL names
  cases advances with
  | refuse => exact ⟨rfl, rfl⟩
  | ask begins names => exact absurd ⟨_, Reader.target_eq_ok_iff.1 names⟩ h
  | request asks =>
    simp only [Fits, asks] at fits
    exact absurd ⟨_, Reader.target_eq_ok_iff.1 fits.1⟩ h

end Caller

namespace Lobby

variable {lobby : Lobby}

/-- At a moment of a run: how often clients were built, where certificates are trusted, and who goes
through which client. -/
structure Confined (lobby : Lobby) : Prop where
  /-- No client was built twice. -/
  built_once : ∀ kind, lobby.reader.clients.built.count kind ≤ 1
  /-- The client that accepts any certificate was warned of whenever it was built. -/
  warned : lobby.records.count Clients.trustWarning = lobby.reader.clients.built.count .trusting
  /-- It was built only if any certificate is to be accepted and some page of https is read. -/
  trusting_needed : .trusting ∈ lobby.reader.clients.built →
    lobby.reader.trustsAnyCertificate = true ∧
      ∃ caller ∈ lobby.callers, caller.Begun ∧ lobby.reader.IsHttps caller.url
  /-- It was built, then, as soon as somebody has the client for such a page. -/
  trusting_built : lobby.reader.trustsAnyCertificate = true → ∀ caller ∈ lobby.callers,
    lobby.reader.IsHttps caller.url → caller.client?.isSome = true →
      lobby.reader.clients.built.count .trusting = 1
  /-- Nobody who reads a page is left without a client in the end. -/
  served : ∀ caller ∈ lobby.callers, caller.Ended → lobby.reader.IsPage caller.url →
    caller.client?.isSome = true
  /-- Whoever has a client, by its number, reads a page, which is one of https if the client accepts
  any certificate, and sends the request through that client. -/
  client : ∀ caller ∈ lobby.callers, ∀ kind number, caller.client? = some (kind, number) →
    lobby.reader.clients.built.reverse[number]? = some kind ∧
      ∃ address, lobby.reader.parse caller.url = .ok (.page address) ∧
        (kind = .trusting ↔
          address.scheme = .https ∧ lobby.reader.trustsAnyCertificate = true) ∧
        ∀ transport outcome, caller.outcome? lobby.reader transport = some outcome →
          outcome = lobby.reader.outcomeOf caller.url (transport kind address).answer
  /-- All who have a client of one kind have the same one. -/
  shared : ∀ caller ∈ lobby.callers, ∀ other ∈ lobby.callers, ∀ kind number number',
    caller.client? = some (kind, number) → other.client? = some (kind, number') →
      number = number'
  /-- Whoever reads what is no URL of a page has no client, and its turn changes nothing that the
  others see. -/
  refused : ∀ (position : Nat) (caller : Caller), lobby.callers[position]? = some caller →
    ¬ lobby.reader.IsPage caller.url → caller.client? = none ∧
      (lobby.turn position).reader = lobby.reader ∧ (lobby.turn position).records = lobby.records

namespace Orderly

variable (orderly : lobby.Orderly)

include orderly

/-- A client that is there was built once. -/
theorem count_built_eq_one {kind : ClientKind} (h : kind ∈ lobby.reader.clients.built) :
    lobby.reader.clients.built.count kind = 1 :=
  List.count_eq_one_of_mem orderly.nodup h

theorem trusting_needed (h : .trusting ∈ lobby.reader.clients.built) :
    lobby.reader.trustsAnyCertificate = true ∧
      ∃ caller ∈ lobby.callers, caller.Begun ∧ lobby.reader.IsHttps caller.url := by
  obtain ⟨position, caller, here, hwants⟩ := orderly.wanted .trusting h
  have hcaller := List.mem_of_getElem? here
  obtain ⟨begun, address, names, hkind⟩ := (orderly.fits caller hcaller).of_kind? hwants
  obtain ⟨https, htrusts⟩ := Reader.clientFor_eq_trusting_iff.1 hkind.symm
  exact ⟨htrusts, caller, hcaller, begun, (Reader.isHttps_iff names).2 https⟩

/-- What a caller with a client has found out. -/
theorem client {caller : Caller} (hcaller : caller ∈ lobby.callers) {kind : ClientKind}
    {number : Nat} (h : caller.client? = some (kind, number)) :
    kind ∈ lobby.reader.clients.built ∧ number = lobby.reader.clients.number kind ∧
      ∃ address, lobby.reader.target caller.url = .ok address ∧
        kind = lobby.reader.clientFor address := by
  have fits := orderly.fits caller hcaller
  obtain ⟨hkind, hmem, hnumber⟩ := fits.of_client? h
  obtain ⟨-, hpage⟩ := fits.of_kind? hkind
  exact ⟨hmem, hnumber, hpage⟩

theorem trusting_built (htrusts : lobby.reader.trustsAnyCertificate = true) {caller : Caller}
    (hcaller : caller ∈ lobby.callers) (https : lobby.reader.IsHttps caller.url)
    (h : caller.client?.isSome = true) :
    lobby.reader.clients.built.count .trusting = 1 := by
  obtain ⟨⟨kind, number⟩, hclient⟩ := Option.isSome_iff_exists.1 h
  obtain ⟨hmem, -, address, names, hkind⟩ := orderly.client hcaller hclient
  have htrusting : lobby.reader.clientFor address = .trusting :=
    Reader.clientFor_eq_trusting_iff.2 ⟨(Reader.isHttps_iff names).1 https, htrusts⟩
  rw [hkind, htrusting] at hmem
  exact orderly.count_built_eq_one hmem

theorem refused {position : Nat} {caller : Caller}
    (here : lobby.callers[position]? = some caller) (h : ¬ lobby.reader.IsPage caller.url) :
    caller.client? = none ∧ (lobby.turn position).reader = lobby.reader ∧
      (lobby.turn position).records = lobby.records := by
  have hcaller := List.mem_of_getElem? here
  refine ⟨?_, ?_⟩
  · cases hclient : caller.client? with
    | none => rfl
    | some client =>
      obtain ⟨-, -, address, names, -⟩ := orderly.client hcaller hclient
      exact absurd ⟨address, Reader.target_eq_ok_iff.1 names⟩ h
  · have hturn := Goes.of_turn lobby position
    generalize lobby.turn position = next at hturn ⊢
    cases hturn with
    | idle => exact ⟨rfl, rfl⟩
    | advance here' advances =>
      obtain rfl := Option.some.inj (here.symm.trans here')
      have fits := orderly.fits caller hcaller
      -- a caller whose URL names no page turns back before it comes to the clients
      obtain ⟨hreader, hrecords⟩ := Caller.unchanged_of_not_isPage fits h advances
      exact ⟨hreader, by rw [hrecords, List.append_nil]⟩

/-- A lobby in order keeps trust confined. -/
theorem confined : lobby.Confined := by
  constructor
  case built_once => exact List.nodup_iff_count_le_one.1 orderly.nodup
  case warned => exact orderly.warned
  case trusting_needed => exact orderly.trusting_needed
  case trusting_built =>
    intro htrusts caller hcaller https h
    exact orderly.trusting_built htrusts hcaller https h
  case served =>
    intro caller hcaller ended h
    exact Caller.client?_isSome_of_ended (orderly.fits caller hcaller) ended h
  case client =>
    intro caller hcaller kind number hclient
    obtain ⟨hmem, hnumber, address, names, hkind⟩ := orderly.client hcaller hclient
    refine ⟨?_, address, Reader.target_eq_ok_iff.1 names, ?_, ?_⟩
    · rw [hnumber]
      exact Clients.getElem?_number hmem
    · rw [hkind]
      exact Reader.clientFor_eq_trusting_iff
    · intro transport outcome houtcome
      exact Caller.outcome_eq_of_client? (orderly.fits caller hcaller) hclient names houtcome
  case shared =>
    intro caller hcaller other hother kind number number' hclient hclient'
    obtain ⟨-, hnumber, -⟩ := orderly.client hcaller hclient
    obtain ⟨-, hnumber', -⟩ := orderly.client hother hclient'
    exact hnumber.trans hnumber'.symm
  case refused =>
    intro position caller here h
    exact orderly.refused here h

end Orderly

/-- A run has come to its end, and to the same as these fetches, after which the reader is this. -/
structure Reads (lobby : Lobby) (transport : Transport) (fetches : List Fetch) (reader : Reader) :
    Prop where
  ended : ∀ caller ∈ lobby.callers, caller.Ended
  outcomes : lobby.callers.map (fun caller => caller.outcome? lobby.reader transport) =
    fetches.map fun fetch => some fetch.outcome
  reader_eq : lobby.reader = reader
  warned : lobby.records.count Clients.trustWarning =
    (fetches.flatMap Fetch.records).count Clients.trustWarning

/-- Whatever the order was, those who have ended came to what each would read by itself. -/
theorem Orderly.outcomes_of_ended (orderly : lobby.Orderly)
    (ended : ∀ caller ∈ lobby.callers, caller.Ended) (transport : Transport) :
    lobby.callers.map (fun caller => caller.outcome? lobby.reader transport) =
      (lobby.callers.map Caller.url).map fun url =>
        some (lobby.reader.read transport url).1.outcome := by
  rw [List.map_map]
  refine List.map_congr_left fun caller hcaller => ?_
  exact Caller.outcome?_eq_of_ended (orderly.fits caller hcaller) (ended caller hcaller) transport

/-- Reading the pages one after the other is one of the runs. -/
theorem exists_reads (parse : Url.Parser) (timeout : Duration) (trustsAnyCertificate : Bool)
    (urls : List String) (transport : Transport) :
    ∃ schedule,
      ((opening parse timeout trustsAnyCertificate urls).run schedule).Reads transport
        (Reader.readAll { timeout, trustsAnyCertificate, parse } transport urls).1
        (Reader.readAll { timeout, trustsAnyCertificate, parse } transport urls).2 := by
  -- one caller after the other, each to its end
  obtain ⟨schedule, ended, more, hschedule, hended, hmore⟩ :=
    exists_run_readAll transport urls [] { timeout, trustsAnyCertificate, parse } [] rfl
  have hrun : (opening parse timeout trustsAnyCertificate urls).run schedule = _ := hschedule
  have orderly := (Orderly.opening parse timeout trustsAnyCertificate urls).run schedule
  have hurls := (urls_run schedule).trans (urls_opening parse timeout trustsAnyCertificate urls)
  obtain ⟨clients, hreader⟩ :
      ∃ clients, ((opening parse timeout trustsAnyCertificate urls).run schedule).reader =
        { timeout, trustsAnyCertificate, parse, clients } := reader_run schedule
  have hall : ∀ caller ∈ ((opening parse timeout trustsAnyCertificate urls).run schedule).callers,
      caller.Ended := by
    rw [hrun]
    exact hended
  refine ⟨schedule, hall, ?_, by rw [hrun], ?_⟩
  · -- the clients differ along the way, but they have no part in what is read
    have hfetches := congrArg (List.map some)
      (Reader.outcomes_readAll { timeout, trustsAnyCertificate, parse } transport urls)
    rw [List.map_map, List.map_map] at hfetches
    rw [orderly.outcomes_of_ended hall transport, hurls, hreader]
    refine Eq.trans (List.map_congr_left fun url _ => ?_) hfetches.symm
    exact congrArg some
      (Reader.outcome_with_clients { timeout, trustsAnyCertificate, parse } clients transport url)
  · rw [hrun]
    exact hmore

/-- Callers read pages through one reader, in whatever order they take their turns. At any moment
trust is confined, and the callers can go on until all of them have ended. One of the orders is that
of a single caller who reads the pages one after the other. -/
theorem clients_confined (parse : Url.Parser) (timeout : Duration) (trustsAnyCertificate : Bool)
    (urls : List String) :
    let start := opening parse timeout trustsAnyCertificate urls
    (∀ schedule,
      (start.run schedule).Confined ∧
      (∃ clients, (start.run schedule).reader = { timeout, trustsAnyCertificate, parse, clients }) ∧
      (start.run schedule).callers.map Caller.url = urls ∧
      ∃ rest, ∀ caller ∈ (start.run (schedule ++ rest)).callers, caller.Ended) ∧
    ∀ transport, ∃ schedule,
      (start.run schedule).Reads transport (start.reader.readAll transport urls).1
        (start.reader.readAll transport urls).2 := by
  intro start
  have horderly := Orderly.opening parse timeout trustsAnyCertificate urls
  refine ⟨fun schedule => ⟨?_, reader_run schedule, ?_, ?_⟩, ?_⟩
  · exact (horderly.run schedule).confined
  · exact (urls_run schedule).trans (urls_opening parse timeout trustsAnyCertificate urls)
  · obtain ⟨rest, hrest⟩ := (horderly.run schedule).exists_ended
    exact ⟨rest, by rwa [run_append]⟩
  · exact exists_reads parse timeout trustsAnyCertificate urls

/-- Two callers who find the client for https missing at the same time, one of whom waits for the
lock meanwhile, one for http, and one whose URL is refused. -/
theorem clients_confined_in_race :
    let race := (opening (Url.parse Url.Domain.toAscii?) (.ofSeconds 10) true
        ["https://a/x.bob", "https://b/y.bob", "http://c/z.bob", "ftp://d/w.bob"]).run
      [0, 1, 2, 3, 0, 1, 0, 1, 0, 0, 1, 2, 2, 0, 1, 2, 1, 1, 2, 2, 2]
    race.Confined ∧ race.reader.clients.built = [.verifying, .trusting] ∧
      race.callers.map Caller.client? =
        [some (.trusting, 0), some (.trusting, 0), some (.verifying, 1), none] ∧
      race.records.count Clients.trustWarning = 1 :=
  ⟨((clients_confined (Url.parse Url.Domain.toAscii?) (.ofSeconds 10) true
      ["https://a/x.bob", "https://b/y.bob", "http://c/z.bob", "ftp://d/w.bob"]).1 _).1,
    by decide +kernel, by decide +kernel, by decide +kernel⟩

end Lobby

end Locator.Http
