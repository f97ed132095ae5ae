import Locator.Proofs.Http.Lobby
import Locator.Proofs.Http.Reading

/-!
# One caller after another

A caller that nobody interrupts does what `Clients.obtain` does in one go, so reading pages one
after the other is one of the runs of a lobby, and what every run keeps is kept there.

* `Reader.outcomes_readAll`: what is read of a page does not depend on what was read before
* `Caller.exists_alone`: by itself a caller does to the clients what `Reader.read` does to them
* `Lobby.exists_run_among`: it does so among others who wait
* `Lobby.exists_run_readAll`: `Reader.readAll` is a run
-/

namespace Locator.Http

open Url (Address)

/-! ## What reading does to the clients -/

namespace Reader

variable {reader : Reader} {url : String} {address : Address}

theorem read_of_target_error {error : Error} (h : reader.target url = .error error)
    (transport : Transport) :
    reader.read transport url = ({ outcome := .error error }, reader) := by
  cases hparse : reader.parse url with
  | error fault =>
    simp only [target, hparse, Except.error.injEq] at h
    simp only [read, hparse, h]
  | ok reference =>
    cases reference with
    | foreign scheme requestable =>
      simp only [target, hparse, Except.error.injEq] at h
      simp only [read, hparse, h]
    | page address => simp [target, hparse] at h

theorem reader_of_read (h : reader.target url = .ok address) (transport : Transport) :
    (reader.read transport url).2 =
      { reader with clients := (reader.clients.obtain (reader.clientFor address)).1 } := by
  simp only [read, target_eq_ok_iff.1 h]

/-- Nothing but the client that accepts any certificate is ever warned of. -/
theorem count_records_of_read (h : reader.target url = .ok address) (transport : Transport) :
    (reader.read transport url).1.records.count Clients.trustWarning =
      (reader.clients.obtain (reader.clientFor address)).2.count Clients.trustWarning := by
  have hdebug : ∀ records : List Log.Record, (∀ record ∈ records, record.severity = .debug) →
      records.count Clients.trustWarning = 0 := by
    intro records hrecords
    refine List.count_eq_zero.2 fun hmem => ?_
    cases hrecords _ hmem
  have hconnections : ∀ record ∈ (transport (reader.clientFor address) address).connections.map
      connectionRecord, record.severity = .debug := by
    intro record hrecord
    obtain ⟨connection, -, rfl⟩ := List.mem_map.1 hrecord
    rfl
  have houtcome : ∀ outcome, ∀ record ∈ outcomeRecords url outcome, record.severity = .debug := by
    intro outcome record hrecord
    cases outcome with
    | error error => cases hrecord
    | ok bytes =>
      obtain rfl := List.mem_singleton.1 hrecord
      rfl
  -- behind the URL and what the client reports there are only connections and the outcome
  simp only [read, target_eq_ok_iff.1 h, List.count_append]
  rw [hdebug _ hconnections, hdebug _ (houtcome _), hdebug _ (by simp [Log.Record.debug])]
  omega

theorem locked_read (reader : Reader) (transport : Transport) (url : String) :
    (reader.read transport url).2.clients.locked = reader.clients.locked := by
  cases htarget : reader.target url with
  | error error => rw [read_of_target_error htarget]
  | ok address =>
    rw [reader_of_read htarget, Clients.obtain]
    split <;> rfl

/-- What is read of a page does not depend on what was read before. -/
theorem outcomes_readAll (reader : Reader) (transport : Transport) (urls : List String) :
    (reader.readAll transport urls).1.map Fetch.outcome =
      urls.map fun url => (reader.read transport url).1.outcome := by
  induction urls generalizing reader with
  | nil => rfl
  | cons url rest ih =>
    obtain ⟨clients, hclients⟩ := reader.exists_clients transport url
    have hrest := ih { reader with clients }
    simp only [outcome_with_clients] at hrest
    simp only [readAll, List.map_cons, hclients, hrest]

end Reader

/-! ## By itself -/

namespace Caller

variable {caller next last : Caller} {reader later final : Reader} {records more : List Log.Record}

/-- A caller takes one step after the other, and nobody else does. -/
inductive Alone : Caller → Reader → Caller → Reader → List Log.Record → Prop where
  | done {caller : Caller} {reader : Reader} : Alone caller reader caller reader []
  | step {caller next last : Caller} {reader later final : Reader} {records more : List Log.Record}
      (advances : caller.Advances reader next later records)
      (rest : Alone next later last final more) :
      Alone caller reader last final (records ++ more)

/-- By itself a caller gets its client in one go, if nobody has left with the lock. -/
theorem alone_obtain (url : String) (address : Address) (kind : ClientKind)
    (free : reader.clients.locked = false) :
    ∃ number, Alone { url, phase := .asking address { kind } } reader
      { url, phase := .asking address { kind, stage := .finished number } }
      { reader with clients := (reader.clients.obtain kind).1 } (reader.clients.obtain kind).2 := by
  by_cases there : kind ∈ reader.clients.built
  · refine ⟨reader.clients.number kind, ?_⟩
    rw [Clients.obtain, if_pos (Clients.has_eq_true_iff.2 there)]
    exact .step (.request rfl (.find there)) .done
  · let locked : Clients := { reader.clients with locked := true }
    refine ⟨(locked.build kind).number kind, ?_⟩
    rw [Clients.obtain, if_neg (mt Clients.has_eq_true_iff.1 there)]
    -- wants the lock, takes it, looks again, builds and gives the lock back
    have htrip : Alone { url, phase := .asking address { kind } } reader _ _ _ :=
      .step (.request rfl (.miss there)) <| .step (.request rfl (.lock free)) <|
      .step (.request rfl (.missAgain there)) <| .step (.request rfl .build) <|
      .step (.request rfl .unlock) .done
    simpa [locked, Clients.build, free] using htrip

/-- By itself a caller does to the clients what reading the page does to them. -/
theorem exists_alone (url : String) (free : reader.clients.locked = false)
    (transport : Transport) :
    ∃ (ended : Caller) (records : List Log.Record),
      Alone { url } reader ended (reader.read transport url).2 records ∧ ended.Ended ∧
      records.count Clients.trustWarning =
        (reader.read transport url).1.records.count Clients.trustWarning := by
  cases htarget : reader.target url with
  | error error =>
    rw [Reader.read_of_target_error htarget]
    exact ⟨_, _, .step (.refuse rfl htarget) .done, trivial, rfl⟩
  | ok address =>
    obtain ⟨number, halone⟩ := alone_obtain url address (reader.clientFor address) free
    rw [Reader.reader_of_read htarget, Reader.count_records_of_read htarget]
    refine ⟨_, _, .step (.ask rfl htarget) halone, trivial, ?_⟩
    simp [Clients.trustWarning, Log.Record.debug, Log.Record.warn]

end Caller

/-! ## Among others -/

namespace Lobby

variable {front back : List Caller} {caller next last : Caller} {reader later : Reader}
  {records more : List Log.Record}

theorem turn_among (advances : caller.Advances reader next later more) :
    ({ reader, callers := front ++ caller :: back, records } : Lobby).turn front.length =
      { reader := later, callers := front ++ next :: back, records := records ++ more } := by
  have here : (front ++ caller :: back)[front.length]? = some caller := by simp
  rw [turn_eq here (Caller.advance_of_advances advances)]
  simp

/-- What a caller does by itself it can do among others, while they wait. -/
theorem exists_run_among (alone : caller.Alone reader last later more) (front back : List Caller)
    (records : List Log.Record) :
    ∃ schedule, ({ reader, callers := front ++ caller :: back, records } : Lobby).run schedule =
      { reader := later, callers := front ++ last :: back, records := records ++ more } := by
  induction alone generalizing records with
  | done => exact ⟨[], by simp [run]⟩
  | @step caller next last reader later final new more advances rest ih =>
    obtain ⟨schedule, hschedule⟩ := ih (records ++ new)
    refine ⟨front.length :: schedule, ?_⟩
    rw [← List.append_assoc, ← hschedule, ← turn_among advances]
    rfl

/-- Reading pages one after the other is a run: those in front have ended, the others wait. -/
theorem exists_run_readAll (transport : Transport) (urls : List String) (front : List Caller)
    (reader : Reader) (records : List Log.Record) (free : reader.clients.locked = false) :
    ∃ (schedule : List Nat) (ended : List Caller) (more : List Log.Record),
      ({ reader, callers := front ++ urls.map fun url => { url }, records } : Lobby).run schedule =
        { reader := (reader.readAll transport urls).2
          callers := front ++ ended
          records := records ++ more } ∧
      (∀ caller ∈ ended, caller.Ended) ∧
      more.count Clients.trustWarning =
        ((reader.readAll transport urls).1.flatMap Fetch.records).count Clients.trustWarning := by
  induction urls generalizing front reader records with
  | nil => exact ⟨[], [], [], by simp [run, Reader.readAll], by simp, by simp [Reader.readAll]⟩
  | cons url rest ih =>
    obtain ⟨first, new, halone, hfirst, hnew⟩ := Caller.exists_alone url free transport
    obtain ⟨opening, hopening⟩ :=
      exists_run_among halone front (rest.map fun url => { url }) records
    have hfree := (Reader.locked_read reader transport url).trans free
    -- the first caller is done and stays in front of the others
    obtain ⟨schedule, ended, more, hschedule, hended, hmore⟩ :=
      ih (front ++ [first]) (reader.read transport url).2 (records ++ new) hfree
    refine ⟨opening ++ schedule, first :: ended, new ++ more, ?_, ?_, ?_⟩
    · rw [run_append, List.map_cons, hopening]
      simpa [Reader.readAll] using hschedule
    · exact List.forall_mem_cons.2 ⟨hfirst, hended⟩
    · simp only [Reader.readAll, List.flatMap_cons, List.count_append, hnew, hmore]

end Lobby

end Locator.Http
