import Locator.Http.Reader

/-!
# Callers of one reader

Any number of callers read pages through one reader at the same time. What they share are its
clients: a caller looks at its URL by itself, asks for the client for it step by step, and then goes
on with that client without touching anything that the others see. A caller that waits for the lock
stays where it is until the lock is free.

`Lobby.run` lets the callers take their turns in a given order. `Reader.readAll` is what a single
caller does that reads one page after the other.
-/

namespace Locator.Http

open Url (Address)

/-- The page that a URL names, or the error that it is. -/
def Reader.target (reader : Reader) (url : String) : Except Error Address :=
  match reader.parse url with
  | .error fault => .error (.invalidUrl url fault)
  | .ok (.foreign scheme _) => .error (.unsupportedScheme url scheme)
  | .ok (.page address) => .ok address

/-- How far a caller has come. -/
inductive Phase where
  /-- Has not looked at its URL yet. -/
  | beginning
  | refused (error : Error)
  /-- Asks for the client for a page, and has it in the end. -/
  | asking (address : Address) (requester : Requester)

structure Caller where
  url : String
  phase : Phase := .beginning

namespace Caller

/-- The next step of a caller with what it reports; `none` when it waits for the lock or touches
nothing any more that is shared. -/
def advance (caller : Caller) (reader : Reader) : Option (Caller × Reader × List Log.Record) :=
  match caller.phase with
  | .beginning =>
    match reader.target caller.url with
    | .error error => some ({ caller with phase := .refused error }, reader, [])
    | .ok address =>
      let requester := { kind := reader.clientFor address }
      some ({ caller with phase := .asking address requester }, reader,
        [.debug ("GET " ++ caller.url)])
  | .refused _ => none
  | .asking address requester =>
    (requester.advance reader.clients).map fun (requester, clients, records) =>
      ({ caller with phase := .asking address requester }, { reader with clients }, records)

/-- What a caller comes to that does not ask any more: the request goes through the client that it
has. -/
def outcome? (caller : Caller) (reader : Reader) (transport : Transport) :
    Option (Except Error Bytes) :=
  match caller.phase with
  | .refused error => some (.error error)
  | .asking address { kind, stage := .finished _ } =>
    some (reader.outcomeOf caller.url (transport kind address).answer)
  | _ => none

end Caller

/-- A reader with its callers, and what was reported so far. -/
structure Lobby where
  reader : Reader
  callers : List Caller
  records : List Log.Record := []

namespace Lobby

/-- A new reader, and callers who have not begun yet. -/
def opening (parse : Url.Parser) (timeout : Duration) (trustsAnyCertificate : Bool)
    (urls : List String) : Lobby where
  reader := { timeout, trustsAnyCertificate, parse }
  callers := urls.map fun url => { url }

/-- The caller at a position moves on, if it can. -/
def turn (lobby : Lobby) (position : Nat) : Lobby :=
  match lobby.callers[position]? with
  | none => lobby
  | some caller =>
    match caller.advance lobby.reader with
    | none => lobby
    | some (caller, reader, records) =>
      { reader
        callers := lobby.callers.set position caller
        records := lobby.records ++ records }

/-- The turns are taken in the given order. -/
def run (lobby : Lobby) (schedule : List Nat) : Lobby :=
  schedule.foldl turn lobby

end Lobby

/-- Reads pages one after the other. -/
def Reader.readAll (reader : Reader) (transport : Transport) : List String → List Fetch × Reader
  | [] => ([], reader)
  | url :: rest =>
    let (fetch, next) := reader.read transport url
    let (fetches, last) := next.readAll transport rest
    (fetch :: fetches, last)

end Locator.Http
