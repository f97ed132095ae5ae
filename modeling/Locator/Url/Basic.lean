import Locator.Url.Host

/-!
# Web addresses

The URL of a page: what a request needs to know about it, and how it is written. The parts are kept
as they are written, percent escapes included. User names and passwords are not among them, because
they never show.
-/

namespace Locator.Url

inductive Scheme where
  | http
  | https
  deriving DecidableEq, Repr

namespace Scheme

def name : Scheme → String
  | http => "http"
  | https => "https"

def defaultPort : Scheme → Nat
  | http => 80
  | https => 443

end Scheme

/-- The URL of a page. -/
structure Address where
  scheme : Scheme
  host : Host
  /-- The port, unless it is the default one of the scheme. -/
  port : Option Nat
  /-- The parts of the path; the path starts with a separator, so there is one at least. -/
  path : List (List Char)
  query : Option (List Char)
  fragment : Option (List Char)
  deriving DecidableEq, Repr

namespace Address

/-- The port that a connection goes to. -/
def effectivePort (address : Address) : Nat := address.port.getD address.scheme.defaultPort

/-- The scheme, the host and the port. -/
def origin (address : Address) : String :=
  address.scheme.name ++ "://" ++ address.host.text ++
    (address.port.map fun port => ":" ++ toString port).getD ""

def pathText (address : Address) : List Char :=
  address.path.flatMap ('/' :: ·)

/-- What a request asks for: the path and the query. -/
def target (address : Address) : String :=
  String.ofList (address.pathText ++ (address.query.map ('?' :: ·)).getD [])

def text (address : Address) : String :=
  address.origin ++ address.target ++
    String.ofList ((address.fragment.map ('#' :: ·)).getD [])

/-- The URL of a request may not have more characters. -/
def maxLength : Nat := 65534

/-- A request can be made for the URL. -/
def isRequestable (address : Address) : Bool :=
  address.host.isRequestable && address.text.utf8ByteSize ≤ maxLength

end Address

end Locator.Url
