import Locator.Duration
import Locator.Error
import Locator.Http.Clients
import Locator.Http.Reply
import Locator.Stream.Handle
import Locator.Url.Parse

/-!
# Exchanges with servers

A transport says how a request ends that goes through a client. `Network.transport` is the one that
speaks with servers: it reads their replies and follows redirects. The network is a function: what
comes back over a connection that asks for a URL, unless none can be made.
-/

namespace Locator.Http

open Url (Address)

/-- The reply that a request ends with. -/
structure Response where
  status : Nat
  /-- The body, as it arrives. -/
  body : Stream.Source

/-- How a request ends. -/
inductive Answer where
  | response (response : Response)
  /-- The time was up before there was a response. -/
  | timeout
  | failure (fault : FetchFault)

/-- A request with everything that came of it. -/
structure Exchange where
  answer : Answer
  /-- What was asked for over the connections that were made, in order. -/
  requests : List String := []
  /-- The URLs that connections were attempted for, in order. -/
  connections : List Address := []

/-- What becomes of a request for a URL through a client. -/
abbrev Transport := ClientKind → Address → Exchange

abbrev Network := Address → Option Arrived

/-! ## Bodies -/

/-- A body that arrives as far as it came. -/
def Body.arrivals : Body → Stream.Source
  | whole bytes => .ofBytes bytes
  | broken => [.failure .brokenBody]
  | waiting => [.failure .bodyTimeout]

/-! ## Redirects -/

def isRedirect (status : Nat) : Bool := [301, 302, 303, 307, 308].contains status

/-- Where a reply sends its reader. A location that is no reference, or that no request can name,
counts for nothing. -/
def redirect? (domains : Url.DomainForm) (base : Address) (head : Head) : Option Url.Reference :=
  if isRedirect head.status then
    ((head.values "location").head?.bind Bytes.toString?).bind fun location =>
      (Url.join domains base location).toOption.filter (·.isRequestable)
  else none

/-- How many redirects are followed. -/
def maxRedirects : Nat := 10

/-! ## Exchanges -/

namespace Network

/-- Asks for a page and follows as many redirects as are left. Faults name the URL that was asked
for first. -/
def exchange (network : Network) (domains : Url.DomainForm) (asked : String) (left : Nat)
    (address : Address) : Exchange :=
  match network address with
  | none => { answer := .failure (.noReply asked), connections := [address] }
  | some arrived =>
    let ending (answer : Answer) : Exchange :=
      { answer, requests := [address.target], connections := [address] }
    match Reply.receive arrived with
    | .nothing => ending (.failure (.noReply asked))
    | .waiting => ending .timeout
    | .reply head body =>
      match redirect? domains address head, left with
      | none, _ => ending (.response { status := head.status, body := body.arrivals })
      | some _, 0 => ending (.failure (.tooManyRedirects asked))
      | some (.foreign _ _), _ + 1 => ending (.failure (.noRequest asked))
      | some (.page next), left + 1 =>
        let further := exchange network domains asked left next
        { further with
          requests := address.target :: further.requests
          connections := address :: further.connections }

/-- Speaks with servers for a limited time, and takes domains in their locations in a given form.
Without any time, nothing comes in time. Both clients speak alike, because no server of the network
speaks in encrypted form. -/
def transportFor (network : Network) (domains : Url.DomainForm) (timeout : Duration) : Transport :=
  fun _ address =>
    if timeout.toNanos = 0 then { answer := .timeout }
    else if !address.isRequestable then { answer := .failure (.noRequest address.text) }
    else network.exchange domains address.text maxRedirects address

def transport (network : Network) (timeout : Duration) : Transport :=
  network.transportFor Url.Domain.toAscii? timeout

end Network

end Locator.Http
