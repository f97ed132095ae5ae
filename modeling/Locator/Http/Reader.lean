import Locator.Http.Exchange
import Locator.Log
import Locator.Stream.Copy

/-!
# Reading pages

A `Reader` reads the page of a URL within a time limit, all of it or nothing, and says why it could
not. It asks through a client that accepts any certificate only where it was told to trust, and only
for https. How a text is read as a URL is a part of the reader, so what is said about readers holds
whatever passes for a URL.
-/

namespace Locator.Http

open Url (Address)

/-- What reading a page comes to. -/
structure Fetch where
  outcome : Except Error Bytes
  /-- What was asked for over the connections that were made, in order. -/
  requests : List String := []
  records : List Log.Record := []
  /-- The time that went by, in nanoseconds. -/
  nanos : Nat := 0

structure Reader where
  timeout : Duration
  trustsAnyCertificate : Bool
  /-- Reads a text as a URL. -/
  parse : Url.Parser := Url.parse Url.Domain.toAscii?
  clients : Clients := {}

namespace Reader

/-- The client for a URL. -/
def clientFor (reader : Reader) (address : Address) : ClientKind :=
  if address.scheme = .https && reader.trustsAnyCertificate then .trusting else .verifying

def timeoutError (reader : Reader) (url : String) : Error :=
  .timeout url reader.timeout.clampedMillis.toNat

/-- The whole body, or the error that it broke off with. -/
def readBody (reader : Reader) (url : String) (body : Stream.Source) : Except Error Bytes :=
  let copied := Stream.copy body {}
  match copied.result with
  | .ok _ => .ok copied.sink.written
  | .error cause =>
    -- the client hides its own timeout inside a failure without a kind
    let wrapped := cause.clientError?.any (·.isTimeout)
    if wrapped || cause.kind = .timedOut then .error (reader.timeoutError url)
    else .error (.fetch url (.body cause))

/-- The page that an answer holds, or the error that it is. -/
def outcomeOf (reader : Reader) (url : String) : Answer → Except Error Bytes
  | .timeout => .error (reader.timeoutError url)
  | .failure fault => .error (.fetch url fault)
  | .response response =>
    if 400 ≤ response.status && response.status < 600 then
      .error (.httpStatus url response.status)
    else reader.readBody url response.body

def connectionRecord (address : Address) : Log.Record :=
  .debug ("starting new connection: " ++ address.origin ++ "/")

/-- What is reported about an outcome. -/
def outcomeRecords (url : String) : Except Error Bytes → List Log.Record
  | .ok bytes => [.debug ("Read " ++ toString bytes.length ++ " bytes from " ++ url)]
  | .error _ => []

/-- Reads the page of a URL. -/
def read (reader : Reader) (transport : Transport) (url : String) : Fetch × Reader :=
  match reader.parse url with
  | .error fault => ({ outcome := .error (.invalidUrl url fault) }, reader)
  | .ok (.foreign scheme _) => ({ outcome := .error (.unsupportedScheme url scheme) }, reader)
  | .ok (.page address) =>
    let kind := reader.clientFor address
    let (clients, announced) := reader.clients.obtain kind
    let done := transport kind address
    let outcome := reader.outcomeOf url done.answer
    ({ outcome
       requests := done.requests
       records := [.debug ("GET " ++ url)] ++ announced ++
         done.connections.map connectionRecord ++ outcomeRecords url outcome
       nanos := match outcome with
         | .error (.timeout _ _) => reader.timeout.toNanos
         | _ => 0 },
     { reader with clients })

end Reader

end Locator.Http
