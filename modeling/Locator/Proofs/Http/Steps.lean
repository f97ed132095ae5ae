import Locator.Http.Callers
import Mathlib.Data.List.Basic

/-!
# Steps of a caller

What one step of one caller does, said once for all that is kept by steps. `Requester.Advances` and
`Caller.Advances` have a constructor for every step, and no proof past this module opens `advance`.

* `Clients.Grows`: clients are only ever added, and those that are there keep their numbers
* `Requester.Advances.lock_cases`: what a step does to the lock
* `Requester.Advances.built_cases`: a client is built in one step only, and reported in the same
* `Caller.Fits`: where a caller is, seen from its URL and from the clients that are there
-/

namespace Locator.Http

open Url (Address)

/-! ## Clients -/

namespace Clients

variable {clients later : Clients} {kind other : ClientKind}

theorem has_eq_true_iff : clients.has kind = true ↔ kind ∈ clients.built := List.contains_iff_mem

/-- Clients were added, if anything. -/
def Grows (clients later : Clients) : Prop :=
  clients.built <:+ later.built

theorem Grows.refl (clients : Clients) : clients.Grows clients := List.suffix_rfl

theorem Grows.build (clients : Clients) (kind : ClientKind) : clients.Grows (clients.build kind) :=
  List.suffix_cons kind clients.built

theorem Grows.mem (grows : clients.Grows later) (h : kind ∈ clients.built) : kind ∈ later.built :=
  List.IsSuffix.subset grows h

/-- A client that is there keeps its number. -/
theorem Grows.number_eq (grows : clients.Grows later) (h : kind ∈ clients.built) :
    later.number kind = clients.number kind := by
  obtain ⟨front, hfront⟩ := grows
  unfold number
  -- the latest client is in front, so in the order of building the new ones stand behind it
  rw [← hfront, List.reverse_append]
  exact List.idxOf_append_of_mem (List.mem_reverse.2 h)

theorem getElem?_number (h : kind ∈ clients.built) :
    clients.built.reverse[clients.number kind]? = some kind :=
  List.getElem?_idxOf (List.mem_reverse.2 h)

/-- What is reported of a client that does not verify certificates. -/
def trustWarning : Log.Record :=
  .warn "Accepting any certificate and host name for https resources"

theorem count_buildRecords (kind : ClientKind) :
    (buildRecords kind).count trustWarning = [kind].count .trusting := by
  cases kind <;> decide

end Clients

/-! ## Stages -/

namespace Stage

/-- Has the lock. -/
def holdsLock : Stage → Bool
  | holding | building | leaving _ => true
  | outside | wanting | finished _ => false

/-- The number of the client that was found or built. -/
def number? : Stage → Option Nat
  | leaving number | finished number => some number
  | outside | wanting | holding | building => none

/-- How many steps are left at most. -/
def effort : Stage → Nat
  | outside => 5
  | wanting => 4
  | holding => 3
  | building => 2
  | leaving _ => 1
  | finished _ => 0

end Stage

namespace Requester

/-- A step takes a caller that asks for a client from one stage to another. -/
inductive Advances (kind : ClientKind) (clients : Clients) :
    Stage → Stage → Clients → List Log.Record → Prop where
  | find (there : kind ∈ clients.built) :
      Advances kind clients .outside (.finished (clients.number kind)) clients []
  | miss (missing : kind ∉ clients.built) : Advances kind clients .outside .wanting clients []
  | lock (free : clients.locked = false) :
      Advances kind clients .wanting .holding { clients with locked := true } []
  | findAgain (there : kind ∈ clients.built) :
      Advances kind clients .holding (.leaving (clients.number kind)) clients []
  | missAgain (missing : kind ∉ clients.built) : Advances kind clients .holding .building clients []
  | build :
      Advances kind clients .building (.leaving ((clients.build kind).number kind))
        (clients.build kind) (Clients.buildRecords kind)
  | unlock {number : Nat} :
      Advances kind clients (.leaving number) (.finished number) { clients with locked := false } []

variable {requester next : Requester} {kind : ClientKind} {clients later : Clients}
  {stage stage' : Stage} {records : List Log.Record}

theorem advances_of_advance (h : requester.advance clients = some (next, later, records)) :
    ∃ stage, next = { requester with stage } ∧
      Advances requester.kind clients requester.stage stage later records := by
  obtain ⟨kind, stage⟩ := requester
  -- one constructor for each stage, and two where the requester looks for its client
  cases stage with
  | outside =>
    by_cases hthere : kind ∈ clients.built
    · simp only [advance, Clients.has_eq_true_iff.2 hthere, if_true] at h
      cases h
      exact ⟨_, rfl, .find hthere⟩
    · simp only [advance, mt Clients.has_eq_true_iff.1 hthere] at h
      cases h
      exact ⟨_, rfl, .miss hthere⟩
  | wanting =>
    cases hlocked : clients.locked with
    | true => simp [advance, hlocked] at h
    | false =>
      simp only [advance, hlocked, Bool.false_eq_true, if_false] at h
      cases h
      exact ⟨_, rfl, .lock hlocked⟩
  | holding =>
    by_cases hthere : kind ∈ clients.built
    · simp only [advance, Clients.has_eq_true_iff.2 hthere, if_true] at h
      cases h
      exact ⟨_, rfl, .findAgain hthere⟩
    · simp only [advance, mt Clients.has_eq_true_iff.1 hthere] at h
      cases h
      exact ⟨_, rfl, .missAgain hthere⟩
  | building =>
    cases h
    exact ⟨_, rfl, .build⟩
  | leaving number =>
    cases h
    exact ⟨_, rfl, .unlock⟩
  | finished number => cases h

theorem advance_of_advances (advances : Advances kind clients stage stage' later records) :
    ({ kind, stage } : Requester).advance clients =
      some ({ kind, stage := stage' }, later, records) := by
  cases advances with
  | find there | findAgain there => simp [advance, Clients.has_eq_true_iff.2 there]
  | miss missing | missAgain missing => simp [advance, mt Clients.has_eq_true_iff.1 missing]
  | lock free => simp [advance, free]
  | build | unlock => rfl

/-- Who does not wait for the lock and has not finished can move. -/
theorem advance_isSome (h : requester.stage = .wanting → clients.locked = false)
    (hunfinished : ∀ number, requester.stage ≠ .finished number) :
    (requester.advance clients).isSome = true := by
  obtain ⟨kind, stage⟩ := requester
  cases stage with
  | outside | holding => cases hthere : clients.has kind <;> simp [advance, hthere]
  | wanting => simp [advance, h rfl]
  | building | leaving number => rfl
  | finished number => exact absurd rfl (hunfinished number)

namespace Advances

theorem grows (advances : Advances kind clients stage stage' later records) :
    clients.Grows later := by
  cases advances with
  | build => exact .build clients kind
  | _ => exact .refl clients

/-- A step leaves the lock alone, takes it when it is free, or gives it back. -/
theorem lock_cases (advances : Advances kind clients stage stage' later records) :
    (stage'.holdsLock = stage.holdsLock ∧ later.locked = clients.locked) ∨
    (stage.holdsLock = false ∧ stage'.holdsLock = true ∧
      clients.locked = false ∧ later.locked = true) ∨
    (stage.holdsLock = true ∧ stage'.holdsLock = false ∧ later.locked = false) := by
  cases advances with
  | lock free => exact .inr (.inl ⟨rfl, rfl, free, rfl⟩)
  | unlock => exact .inr (.inr ⟨rfl, rfl, rfl⟩)
  | _ => exact .inl ⟨rfl, rfl⟩

/-- A client is built in one step only, which reports it, and no other step reports anything. -/
theorem built_cases (advances : Advances kind clients stage stage' later records) :
    (later.built = clients.built ∧ records = []) ∨
    (stage = .building ∧ later.built = kind :: clients.built ∧
      records = Clients.buildRecords kind) := by
  cases advances with
  | build => exact .inr ⟨rfl, rfl, rfl⟩
  | _ => exact .inl ⟨rfl, rfl⟩

/-- Who is about to build has just seen that the client is missing. -/
theorem missing_of_building (advances : Advances kind clients stage stage' later records)
    (h : stage' = .building) : kind ∉ later.built := by
  cases advances with
  | missAgain missing => exact missing
  | _ => cases h

/-- The client that a step leads to is the one that is there. -/
theorem number?_eq (advances : Advances kind clients stage stage' later records) {number : Nat}
    (hstage : ∀ number, stage.number? = some number →
      kind ∈ clients.built ∧ number = clients.number kind)
    (h : stage'.number? = some number) : kind ∈ later.built ∧ number = later.number kind := by
  cases advances with
  | find there | findAgain there =>
    cases h
    exact ⟨there, rfl⟩
  | build =>
    cases h
    exact ⟨List.mem_cons_self, rfl⟩
  | unlock => exact hstage number h
  | _ => cases h

theorem effort_lt (advances : Advances kind clients stage stage' later records) :
    stage'.effort < stage.effort := by
  cases advances <;> simp [Stage.effort]

end Advances

end Requester

/-! ## Callers -/

theorem Reader.target_eq_ok_iff {reader : Reader} {url : String} {address : Address} :
    reader.target url = .ok address ↔ reader.parse url = .ok (.page address) := by
  unfold target
  cases reader.parse url with
  | error fault => simp
  | ok reference => cases reference <;> simp

namespace Caller

/-- A step takes a caller further, with what it does to the reader and what it reports. -/
inductive Advances (reader : Reader) (caller : Caller) :
    Caller → Reader → List Log.Record → Prop where
  | refuse {error : Error} (begins : caller.phase = .beginning)
      (names : reader.target caller.url = .error error) :
      Advances reader caller { caller with phase := .refused error } reader []
  | ask {address : Address} (begins : caller.phase = .beginning)
      (names : reader.target caller.url = .ok address) :
      Advances reader caller
        { caller with phase := .asking address { kind := reader.clientFor address } } reader
        [.debug ("GET " ++ caller.url)]
  | request {address : Address} {kind : ClientKind} {stage stage' : Stage} {clients : Clients}
      {records : List Log.Record} (asks : caller.phase = .asking address { kind, stage })
      (advances : Requester.Advances kind reader.clients stage stage' clients records) :
      Advances reader caller { caller with phase := .asking address { kind, stage := stage' } }
        { reader with clients } records

variable {caller next : Caller} {reader later : Reader} {records : List Log.Record}
  {kind : ClientKind}

theorem advances_of_advance (h : caller.advance reader = some (next, later, records)) :
    caller.Advances reader next later records := by
  unfold advance at h
  split at h
  · rename_i begins
    split at h
    · rename_i error names
      cases h
      exact .refuse begins names
    · rename_i address names
      cases h
      exact .ask begins names
  · cases h
  · -- the step of the requester is the step of the caller
    rename_i address requester asks
    obtain ⟨⟨moved, clients, _⟩, hadvance, heq⟩ := Option.map_eq_some_iff.1 h
    cases heq
    obtain ⟨stage, rfl, advances⟩ := Requester.advances_of_advance hadvance
    exact .request asks advances

theorem advance_of_advances (advances : caller.Advances reader next later records) :
    caller.advance reader = some (next, later, records) := by
  unfold advance
  cases advances with
  | refuse begins names | ask begins names => simp only [begins, names]
  | request asks advances =>
    simp only [asks, Requester.advance_of_advances advances, Option.map_some]

/-- The kind of client that a caller asks for. -/
def kind? (caller : Caller) : Option ClientKind :=
  match caller.phase with
  | .asking _ requester => some requester.kind
  | _ => none

/-- Has the lock. -/
def holdsLock (caller : Caller) : Bool :=
  match caller.phase with
  | .asking _ requester => requester.stage.holdsLock
  | _ => false

/-- The client that a caller has, by its kind and its number. -/
def client? (caller : Caller) : Option (ClientKind × Nat) :=
  match caller.phase with
  | .asking _ requester => requester.stage.number?.map (requester.kind, ·)
  | _ => none

/-- What a caller has found out is so: what its URL names, which client the page needs, and, once it
has the client, that it is the one that is there. -/
def Fits (reader : Reader) (caller : Caller) : Prop :=
  match caller.phase with
  | .beginning => True
  | .refused error => reader.target caller.url = .error error
  | .asking address requester =>
    reader.target caller.url = .ok address ∧ requester.kind = reader.clientFor address ∧
      ∀ number, requester.stage.number? = some number →
        requester.kind ∈ reader.clients.built ∧ number = reader.clients.number requester.kind

namespace Advances

theorem url_eq (advances : caller.Advances reader next later records) : next.url = caller.url := by
  cases advances <;> rfl

theorem exists_clients (advances : caller.Advances reader next later records) :
    ∃ clients, later = { reader with clients } ∧ reader.clients.Grows clients := by
  cases advances with
  | refuse | ask => exact ⟨reader.clients, rfl, .refl reader.clients⟩
  | request asks advances => exact ⟨_, rfl, advances.grows⟩

theorem lock_cases (advances : caller.Advances reader next later records) :
    (next.holdsLock = caller.holdsLock ∧ later.clients.locked = reader.clients.locked) ∨
    (caller.holdsLock = false ∧ next.holdsLock = true ∧
      reader.clients.locked = false ∧ later.clients.locked = true) ∨
    (caller.holdsLock = true ∧ next.holdsLock = false ∧ later.clients.locked = false) := by
  cases advances with
  | refuse begins | ask begins =>
    left
    simp [holdsLock, Stage.holdsLock, begins]
  | request asks advances =>
    simp only [holdsLock, asks]
    exact advances.lock_cases

/-- A client is built in one step only, by a caller that asks for it, and is reported with it. -/
theorem built_cases (advances : caller.Advances reader next later records) :
    (later.clients.built = reader.clients.built ∧ records.count Clients.trustWarning = 0) ∨
    ∃ address kind, caller.phase = .asking address { kind, stage := .building } ∧
      next.kind? = some kind ∧ later.clients.built = kind :: reader.clients.built ∧
      records = Clients.buildRecords kind := by
  cases advances with
  | refuse => exact .inl ⟨rfl, rfl⟩
  | ask =>
    -- what a caller reports of its URL is no warning
    left
    simp [Clients.trustWarning, Log.Record.debug, Log.Record.warn]
  | request asks advances =>
    obtain ⟨hbuilt, rfl⟩ | ⟨rfl, hbuilt, hrecords⟩ := advances.built_cases
    · exact .inl ⟨hbuilt, rfl⟩
    · exact .inr ⟨_, _, asks, rfl, hbuilt, hrecords⟩

/-- Who has begun to ask for a client does not change its mind. -/
theorem kind?_eq (advances : caller.Advances reader next later records)
    (h : caller.kind? = some kind) : next.kind? = some kind := by
  cases advances with
  | refuse begins | ask begins => simp [kind?, begins] at h
  | request asks => simpa [kind?, asks] using h

theorem missing_of_building (advances : caller.Advances reader next later records)
    {address : Address} (h : next.phase = .asking address { kind, stage := .building }) :
    kind ∉ later.clients.built := by
  cases advances with
  | refuse | ask => cases h
  | request asks advances =>
    cases h
    exact advances.missing_of_building rfl

theorem fits (advances : caller.Advances reader next later records) (fits : caller.Fits reader) :
    next.Fits later := by
  cases advances with
  | refuse begins names => exact names
  | ask begins names => exact ⟨names, rfl, nofun⟩
  | request asks advances =>
    simp only [Fits, asks] at fits
    obtain ⟨names, hkind, hnumber⟩ := fits
    exact ⟨names, hkind, fun number h => advances.number?_eq hnumber h⟩

end Advances

/-- Nothing that a caller has found out is spoilt by clients that are added. -/
theorem Fits.grow {clients : Clients} (fits : caller.Fits reader)
    (grows : reader.clients.Grows clients) : caller.Fits { reader with clients } := by
  unfold Fits at *
  split at fits
  · trivial
  · exact fits
  · obtain ⟨names, hkind, hnumber⟩ := fits
    -- only the number could change, and the client that it is for was there before
    refine ⟨names, hkind, fun number h => ?_⟩
    obtain ⟨hmem, hnumber⟩ := hnumber number h
    exact ⟨grows.mem hmem, hnumber.trans (grows.number_eq hmem).symm⟩

/-! ## The end of a call -/

/-- Has nothing to do any more with what is shared: the URL was refused, or the client is there. -/
def Ended (caller : Caller) : Prop :=
  match caller.phase with
  | .refused _ | .asking _ { stage := .finished _, .. } => True
  | _ => False

theorem not_ended_of_holdsLock (h : caller.holdsLock = true) : ¬ caller.Ended := by
  unfold holdsLock at h
  unfold Ended
  split at h
  · rename_i address requester asks
    obtain ⟨kind, stage⟩ := requester
    cases stage with
    | holding | building | leaving number => simp [asks]
    | outside | wanting | finished number => cases h
  · cases h

/-- Who has not ended can move, unless the lock is missing. -/
theorem advance_isSome (caller : Caller) (hunended : ¬ caller.Ended)
    (hfree : reader.clients.locked = false ∨ caller.holdsLock = true) :
    (caller.advance reader).isSome = true := by
  unfold Ended at hunended
  unfold holdsLock at hfree
  unfold advance
  -- only a requester that wants the lock can be kept waiting
  cases hphase : caller.phase with
  | beginning => cases reader.target caller.url <;> rfl
  | refused error => simp [hphase] at hunended
  | asking address requester =>
    simp only [hphase] at hfree hunended
    rw [Option.isSome_map]
    apply Requester.advance_isSome
    · -- who wants the lock does not have it, so it is free
      intro hwanting
      simpa [hwanting, Stage.holdsLock] using hfree
    · intro number hfinished
      obtain ⟨kind, stage⟩ := requester
      cases hfinished
      exact hunended trivial

/-- How many steps a caller can take at most. -/
def effort (caller : Caller) : Nat :=
  match caller.phase with
  | .beginning => 6
  | .refused _ => 0
  | .asking _ requester => requester.stage.effort

theorem Advances.effort_lt (advances : caller.Advances reader next later records) :
    next.effort < caller.effort := by
  unfold effort
  cases advances with
  | refuse begins | ask begins => simp [begins, Stage.effort]
  | request asks advances =>
    simp only [asks]
    exact advances.effort_lt

end Caller

end Locator.Http
