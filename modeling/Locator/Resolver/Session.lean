import Locator.Cache.Basic
import Locator.Files.System
import Locator.Http.Reader
import Locator.Path.Basic
import Locator.Stream.Copy

/-!
# Working with resources

A resource is a page of the web or a file on disk. A `Session` is everything that using resources
depends on and changes: the files, the web with the cache in front of it, and the time. Actions on
it open, read, write and copy resources.
-/

namespace Locator.Resolver

open Files (FileSystem Place)

/-- Where pages come from. -/
inductive Web where
  /-- What each URL leads to is known. -/
  | known (page : String → Except Error Bytes)
  /-- Servers are asked. -/
  | served (reader : Http.Reader) (transport : Http.Transport)

namespace Web

/-- The page of a URL. -/
def read : Web → String → Http.Fetch × Web
  | known page, url => ({ outcome := page url }, known page)
  | served reader transport, url =>
    let (fetch, next) := reader.read transport url
    (fetch, served next transport)

end Web

structure Session where
  files : FileSystem
  cache : Cache Bytes
  web : Web
  /-- The time in nanoseconds. -/
  now : Nat := 0
  /-- The URLs that were read from the web, in order. -/
  fetched : List String := []
  /-- What servers were asked for, in order. -/
  requests : List String := []
  records : List Log.Record := []

abbrev Action := StateM Session

namespace Action

def report (record : Log.Record) : Action Unit :=
  modify fun session => { session with records := session.records ++ [record] }

/-! ## Pages -/

/-- Reads a page from the web, past the cache. -/
def readPage (url : String) : Action (Except Error Bytes) := fun session =>
  let (fetch, web) := session.web.read url
  (fetch.outcome, {
    session with
    web
    now := session.now + fetch.nanos
    fetched := session.fetched ++ [url]
    requests := session.requests ++ fetch.requests
    records := session.records ++ fetch.records })

def outcomeOf : Except Error Bytes → Outcome Bytes Error
  | .ok content => .value content
  | .error error => .error error

/-- The content of a page, from the cache if it is fresh there. Nothing else fetches at the same
time; a page that somebody else fetched would be read without waiting for them. -/
def openUrl (url : String) : Action (Except Error Bytes) := do
  let session ← get
  match session.cache.enter url session.now with
  | .fresh content cache =>
    set { session with cache }
    return .ok content
  | .blocked => readPage url
  | .vacant id cache =>
    set { session with cache }
    let result ← readPage url
    modify fun session =>
      { session with cache := session.cache.settle url id (outcomeOf result) session.now }
    return result

/-- Says whether a candidate is a URL of a page that can be had. -/
def canOpenUrl (candidate : String) : Action Bool := do
  if !Path.isUrl candidate then return false
  else match ← openUrl candidate with
    | .ok _ => return true
    | .error error =>
      report (.debug ("Probe of " ++ candidate ++ " failed: " ++ error.message))
      return false

/-- Forgets the pages that have been in the cache for too long; gives how many there were. -/
def purge : Action Nat := do
  let session ← get
  let (count, cache) := session.cache.purge session.now
  set { session with cache }
  if 0 < count then report (.debug ("Purged " ++ toString count ++ " expired cache entries"))
  return count

/-! ## Reading and writing -/

/-- A resource that is open for reading: the content of a page, or a file as it is when it is
read. -/
inductive Input where
  | page (content : Bytes)
  | file (place : Place)
  deriving DecidableEq, Repr

/-- What a resource hands out when it is read. -/
def Input.source (files : FileSystem) : Input → Stream.Source
  | page content => .ofBytes content
  | file place =>
    match files.readPlace place with
    | .ok content => .ofBytes content
    | .error cause => [.failure cause]

/-- Opens a resource: a URL as a page, everything else as a file. -/
def openResource (name : String) : Action (Except Error Input) := do
  if Path.isUrl name then return (← openUrl name).map .page
  else return match (← get).files.openFile name with
    | .ok place => .ok (.file place)
    | .error cause => .error (.io cause)

/-- Creates a file or empties it. -/
def createResource (name : String) : Action (Except Error Place) := do
  let session ← get
  match session.files.createFile name with
  | .ok (place, files) =>
    set { session with files }
    return .ok place
  | .error cause => return .error (.io cause)

/-- What a file that was created has taken becomes its content, and the disk goes on answering from
there. -/
def storeTaken (place : Place) (sink : Stream.Sink) : Action Unit :=
  modify fun session =>
    { session with files := session.files.store place sink.written sink.receptions }

/-- Writes a content to a file that was created, as far as the disk takes it. -/
def writePlace (place : Place) (content : Bytes) : Action Unit := do
  let (_, sink, _) := (← get).files.sink.writeAll content
  storeTaken place sink

/-- Copies what is open for reading to a sink. -/
def copyFrom (input : Input) (sink : Stream.Sink) : Action Stream.Copied := do
  let copied := Stream.copy (input.source (← get).files) sink
  modify fun session => { session with records := session.records ++ copied.warnings }
  return copied

/-- Copies a resource to a file; gives the number of bytes. The resource is opened first, so that a
missing one leaves the file as it is. What was written before a failure stays in the file. -/
def copyResource (name dest : String) : Action (Except Error Nat) := do
  match ← openResource name with
  | .error error => return .error error
  | .ok input =>
    match ← createResource dest with
    | .error error => return .error error
    | .ok place =>
      let copied ← copyFrom input (← get).files.sink
      storeTaken place copied.sink
      return copied.result.mapError .io

end Action

end Locator.Resolver
