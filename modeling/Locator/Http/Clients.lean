import Locator.Log

/-!
# Clients

Requests go through one of two clients, of which one verifies certificates and the other accepts
any. A client is built when it is first asked for, and only once: whoever finds it missing takes a
lock and looks again. `Clients.obtain` is what a single caller does; `Requester.advance` takes one
step of one of several callers, where a step is what nobody else can interrupt. There is one lock
for both clients.
-/

namespace Locator.Http

inductive ClientKind where
  | verifying
  | trusting
  deriving DecidableEq, Repr

/-- The clients built so far, and the lock for building. -/
structure Clients where
  /-- The latest client first. -/
  built : List ClientKind := []
  locked : Bool := false
  deriving DecidableEq, Repr

namespace Clients

def has (clients : Clients) (kind : ClientKind) : Bool := clients.built.contains kind

/-- The number of the client of a kind: how many were built before it. A client that is there stays
where it is, so of several clients of a kind the first one is meant. -/
def number (clients : Clients) (kind : ClientKind) : Nat := clients.built.reverse.idxOf kind

/-- What building a client reports. -/
def buildRecords : ClientKind → List Log.Record
  | .verifying => []
  | .trusting => [.warn "Accepting any certificate and host name for https resources"]

def build (clients : Clients) (kind : ClientKind) : Clients :=
  { clients with built := kind :: clients.built }

/-- Makes sure that a client is there; gives what that reports. -/
def obtain (clients : Clients) (kind : ClientKind) : Clients × List Log.Record :=
  if clients.has kind then (clients, []) else (clients.build kind, buildRecords kind)

end Clients

/-! ## Several callers -/

/-- Where a caller is that asks for a client. -/
inductive Stage where
  | outside
  /-- Found the client missing and wants the lock. -/
  | wanting
  /-- Has the lock and has not looked again yet. -/
  | holding
  /-- Has the lock and found the client missing again. -/
  | building
  /-- Has the client of this number and still has the lock. -/
  | leaving (number : Nat)
  /-- Goes on with the client of this number. -/
  | finished (number : Nat)
  deriving DecidableEq, Repr

/-- A caller that asks for a client. -/
structure Requester where
  kind : ClientKind
  stage : Stage := .outside
  deriving DecidableEq, Repr

/-- The next step of a caller with what it reports; `none` when it waits for the lock or has
finished. -/
def Requester.advance (requester : Requester) (clients : Clients) :
    Option (Requester × Clients × List Log.Record) :=
  let kind := requester.kind
  let become (stage : Stage) (clients : Clients) (records : List Log.Record) :=
    some ({ requester with stage }, clients, records)
  match requester.stage with
  | .outside =>
    if clients.has kind then become (.finished (clients.number kind)) clients []
    else become .wanting clients []
  | .wanting =>
    if clients.locked then none else become .holding { clients with locked := true } []
  | .holding =>
    if clients.has kind then become (.leaving (clients.number kind)) clients []
    else become .building clients []
  | .building =>
    let clients := clients.build kind
    become (.leaving (clients.number kind)) clients (Clients.buildRecords kind)
  | .leaving number => become (.finished number) { clients with locked := false } []
  | .finished _ => none

end Locator.Http
