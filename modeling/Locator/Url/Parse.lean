import Locator.Url.Basic

/-!
# Reading URLs

`Url.parse` reads a URL the way browsers do: blanks around it and line breaks in it do not count,
backslashes separate like slashes, dot segments are resolved, and what cannot stand in a part is
escaped. `Url.join` reads a reference in a page. Both are given the form of domains. Of a URL of
another scheme than those of pages only the scheme is of interest, once it is well-formed, and
whether a request could name it.
-/

namespace Locator.Url

/-- What a text refers to. -/
inductive Reference where
  | page (address : Address)
  /-- A URL of another scheme. A request could name it when it says which server it is of. -/
  | foreign (scheme : String) (requestable : Bool)
  deriving DecidableEq, Repr

/-- A request can name what is referred to. -/
def Reference.isRequestable : Reference → Bool
  | page address => address.isRequestable
  | foreign _ requestable => requestable

/-! ## Schemes -/

def isSchemeChar (c : Char) : Bool :=
  c.isAlphanum || c == '+' || c == '-' || c == '.'

/-- A scheme in lower case, and the text behind its colon. -/
def splitScheme? (text : List Char) : Option (String × List Char) :=
  if text.head?.any Char.isAlpha then
    match text.dropWhile isSchemeChar with
    | ':' :: rest => some (String.ofList ((text.takeWhile isSchemeChar).map Char.toLower), rest)
    | _ => none
  else none

/-- What a scheme means for the rest of the URL. -/
inductive Kind where
  | web (scheme : Scheme)
  /-- A host has to follow, as in a web address. -/
  | hosted
  | file
  | other
  deriving DecidableEq

def kindOf (scheme : String) : Kind :=
  if scheme = "http" then .web .http
  else if scheme = "https" then .web .https
  else if ["ws", "wss", "ftp"].contains scheme then .hosted
  else if scheme = "file" then .file
  else .other

def isSlash (c : Char) : Bool := c == '/' || c == '\\'

/-! ## Paths -/

/-- A dot, maybe escaped, is in front. -/
def dropDot? : List Char → Option (List Char)
  | '.' :: rest => some rest
  | '%' :: '2' :: 'e' :: rest | '%' :: '2' :: 'E' :: rest => some rest
  | _ => none

def isSingleDot (segment : List Char) : Bool :=
  dropDot? segment == some []

def isDoubleDot (segment : List Char) : Bool :=
  (dropDot? segment).bind dropDot? == some []

/-- Resolves segments against those in front of them, the last one of which comes first. Where a dot
segment is the last one, the path ends with a separator. -/
def resolveSegments (before : List (List Char)) : List (List Char) → List (List Char)
  | [] => before.reverse
  | segment :: rest =>
    let (kept, next) :=
      if isDoubleDot segment then (before.tail, none)
      else if isSingleDot segment then (before, none)
      else (before, some (percentEncode isEncodedInPath segment))
    match next, rest with
    | some next, rest => resolveSegments (next :: kept) rest
    | none, [] => (([] : List Char) :: kept).reverse
    | none, rest => resolveSegments kept rest

/-- The text split at slashes of both kinds. -/
def splitPath (text : List Char) : List (List Char) :=
  Text.split '/' (text.map fun c => if c == '\\' then '/' else c)

/-- The path, the query and the fragment of a text. -/
def splitTail (text : List Char) : List Char × Option (List Char) × Option (List Char) :=
  let body := text.takeWhile (· != '#')
  let fragment := match text.dropWhile (· != '#') with
    | _ :: rest => some (percentEncode isEncodedInFragment rest)
    | [] => none
  let query := match body.dropWhile (· != '?') with
    | _ :: rest => some (percentEncode isEncodedInQuery rest)
    | [] => none
  (body.takeWhile (· != '?'), query, fragment)

/-! ## Authorities -/

/-- The authority ends here. -/
def endsAuthority (special : Bool) (c : Char) : Bool :=
  c == '/' || c == '?' || c == '#' || (special && c == '\\')

/-- The host with its brackets, up to the colon in front of the port. -/
def takeHost (inBrackets : Bool) : List Char → List Char
  | [] => []
  | c :: rest =>
    if c == ':' && !inBrackets then []
    else c :: takeHost (c == '[' || (inBrackets && c != ']')) rest

/-- The number of a port, which ends with the authority or at a backslash. -/
def parsePort (text : List Char) : Except Fault (Option Nat) :=
  let digits := text.takeWhile (· != '\\')
  if digits.isEmpty then .ok none
  else if digits.all Char.isDigit then
    match (Text.number? 10 digits).filter (· < 65536) with
    | some port => .ok (some port)
    | none => .error .invalidPort
  else .error .invalidPort

/-- The parts of an authority as they are written. -/
structure Authority where
  /-- There is a user name or a password. -/
  hasCredentials : Bool
  /-- An at sign is the first character. -/
  startsWithAt : Bool
  host : List Char
  /-- What follows the colon behind the host. -/
  port : Option (List Char)

def splitAuthority (text : List Char) : Authority :=
  -- credentials may hold further at signs; the last one ends them
  let behindAt := (text.reverse.takeWhile (· != '@')).reverse
  let inFront := text.take (text.length - behindAt.length)
  let credentials := inFront.dropLast
  let host := takeHost false behindAt
  { hasCredentials := !credentials.isEmpty && credentials != [':']
    startsWithAt := inFront == ['@']
    host
    port := match behindAt.drop host.length with
      | _ :: port => some port
      | [] => none }

/-- Reads the host of a web address. -/
def parseWebHost (domains : DomainForm) (authority : Authority) : Except Fault Host :=
  if authority.host.isEmpty then .error .emptyHost else Host.parse domains authority.host

/-- Reads what follows the slashes of a web address. -/
def parseAuthority (domains : DomainForm) (scheme : Scheme) (text : List Char) :
    Except Fault Address := do
  let authority := splitAuthority (text.takeWhile (!endsAuthority true ·))
  let rest := text.dropWhile (!endsAuthority true ·)
  let host ← parseWebHost domains authority
  let port ← parsePort (authority.port.getD [])
  let (path, query, fragment) := splitTail rest
  return {
    scheme
    host
    port := port.filter (· ≠ scheme.defaultPort)
    path := resolveSegments [] (splitPath (if path.head?.any isSlash then path.tail else path))
    query
    fragment }

/-- Checks the authority of a URL of another scheme that has to have a host. Like the checks below,
it says whether a request could name the URL. -/
def checkHosted (domains : DomainForm) (text : List Char) : Except Fault Bool := do
  let authority := splitAuthority (text.takeWhile (!endsAuthority true ·))
  let host ← parseWebHost domains authority
  let _ ← parsePort (authority.port.getD [])
  return host.isRequestable

/-- Checks the authority of a URL of an unknown scheme. It may be empty, but then there is nothing
else in it. -/
def checkOther (domains : DomainForm) (text : List Char) : Except Fault Bool := do
  let authority := splitAuthority (text.takeWhile (!endsAuthority false ·))
  let ended := (text.dropWhile (!endsAuthority false ·)).isEmpty
  if authority.host.isEmpty then
    if authority.port.isSome || authority.hasCredentials || (authority.startsWithAt && !ended) then
      throw .emptyHost
    return false
  else
    Host.checkOpaque domains authority.host
    let _ ← parsePort (authority.port.getD [])
    return authority.host.head? == some '[' || authority.host.all Host.isAuthorityChar

/-- A letter and a colon or a bar, which is a drive and not a host. -/
def isDrive : List Char → Bool
  | [letter, mark] => letter.isAlpha && (mark == ':' || mark == '|')
  | _ => false

/-- Checks the host of a URL of a file. The own machine is no host. -/
def checkFile (domains : DomainForm) (text : List Char) : Except Fault Bool :=
  match text with
  | a :: b :: rest =>
    let host := rest.takeWhile (!endsAuthority true ·)
    if isSlash a && isSlash b && !host.isEmpty && !isDrive host then
      (Host.parse domains host).map fun host => host != .domain "localhost" && host.isRequestable
    else .ok false
  | _ => .ok false

/-- A text without slashes that could be read as an authority: the scheme would be the user, or the
host in front of a port. -/
def isBareAuthority (text : List Char) : Bool :=
  let host := (text.reverse.takeWhile (· != '@')).reverse
  let inFront := (text.take (text.length - host.length)).dropLast
  !host.isEmpty && host.all Host.isAuthorityChar && host.count ':' ≤ 1 &&
    inFront.all fun c => Host.isAuthorityChar c || c == '@' || c == '%' || isNeverPlain c

/-! ## References -/

/-- Reads a reference without a scheme in a page. -/
def parseRelative (domains : DomainForm) (base : Address) (text : List Char) :
    Except Fault Address :=
  let (path, query, fragment) := splitTail text
  let slashes := text.takeWhile isSlash
  if 2 ≤ slashes.length then
    -- a third slash ends the authority only where the first two are plain ones
    let authority := if ['/', '/'].isPrefixOf text then text.drop 2 else text.drop slashes.length
    parseAuthority domains base.scheme authority
  else if !slashes.isEmpty then
    .ok { base with path := resolveSegments [] (splitPath path.tail), query, fragment }
  else if !path.isEmpty then
    let before := base.path.dropLast.reverse
    .ok { base with path := resolveSegments before (splitPath path), query, fragment }
  else .ok { base with query := query.or base.query, fragment }

/-- Reads a reference with a scheme, in a page or on its own. -/
def parseWithScheme (domains : DomainForm) (base : Option Address) (scheme : String)
    (text : List Char) : Except Fault Reference :=
  let foreign (checked : Except Fault Bool) := checked.map (Reference.foreign scheme)
  match kindOf scheme with
  | .web scheme =>
    let slashes := text.takeWhile isSlash
    -- the scheme of the page may stand in front of what is relative to it
    match base.filter fun base => base.scheme = scheme && slashes.length < 2 with
    | some base => (parseRelative domains base text).map .page
    | none => (parseAuthority domains scheme (text.drop slashes.length)).map .page
  | .hosted => foreign (checkHosted domains (text.dropWhile isSlash))
  | .file => foreign (checkFile domains text)
  | .other =>
    if ['/', '/'].isPrefixOf text then foreign (checkOther domains (text.drop 2))
    else foreign (.ok (isBareAuthority (scheme.toList ++ ':' :: text)))

/-- The characters at the ends of a text that do not belong to a URL. -/
def isOuterBlank (c : Char) : Bool := c ≤ ' '

/-- The characters that do not count anywhere in a URL. -/
def isIgnored (c : Char) : Bool := c == '\t' || c == '\n' || c == '\r'

/-- The characters of a text that count. -/
def relevant (text : String) : List Char :=
  let trimmed := ((text.toList.dropWhile isOuterBlank).reverse.dropWhile isOuterBlank).reverse
  trimmed.filter (!isIgnored ·)

def parseIn (domains : DomainForm) (base : Option Address) (text : String) :
    Except Fault Reference :=
  let text := relevant text
  match splitScheme? text, base with
  | some (scheme, rest), base => parseWithScheme domains base scheme rest
  | none, some base => (parseRelative domains base text).map .page
  | none, none => .error .noScheme

/-- What reads texts as URLs. -/
abbrev Parser := String → Except Fault Reference

/-- Reads a URL. -/
def parse (domains : DomainForm) : Parser := parseIn domains none

/-- Reads a reference in a page. -/
def join (domains : DomainForm) (base : Address) : Parser := parseIn domains (some base)

end Locator.Url
