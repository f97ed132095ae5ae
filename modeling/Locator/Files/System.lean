import Locator.Files.Location
import Locator.Stream.Handle

/-!
# Files on disk

A file system as a value: what is at which place, and the directory that a process works in. A
*place* is the list of the names on the way to it, the last name first; it is where a location leads
(`walk`), so two locations of one file have one place. Reading and writing go through places, which
makes them behave like open files: a file that is emptied through one location is empty for whoever
has it open.

Everything on disk is a directory or a regular file with one name, and nothing is protected: any
file can be opened, read, created and emptied. Only what is written to a file may not find room, and
the disk says so when it is written.
-/

namespace Locator.Files

/-- The names on the way from the root, the last name first. -/
abbrev Place := List String

inductive Node where
  | file (content : Bytes)
  | directory
  deriving DecidableEq, Repr

/-- What is on disk, and the working directory. -/
structure FileSystem where
  entries : List (Place × Node) := []
  workingDirectory : Place := []
  /-- How the disk answers the writes to come; after them it takes everything. -/
  writes : List Stream.Reception := []

/-- No name on disk may be longer, in bytes. -/
def maxName : Nat := 255

/-- No location may be longer, in bytes. -/
def maxLocation : Nat := 4095

namespace FileSystem

/-! ## Places -/

/-- What is at a place. The root is a directory. -/
def node? (files : FileSystem) : Place → Option Node
  | [] => some .directory
  | place => files.entries.lookup place

/-- Replaces what is at a place. -/
def put (files : FileSystem) (place : Place) (node : Node) : FileSystem :=
  { files with entries := (place, node) :: files.entries.filter (·.1 ≠ place) }

def remove (files : FileSystem) (place : Place) : FileSystem :=
  { files with entries := files.entries.filter (·.1 ≠ place) }

/-- Makes a directory and the directories on the way to it. -/
def makeDirectories (files : FileSystem) : Place → FileSystem
  | [] => files
  | name :: above => (makeDirectories files above).put (name :: above) .directory

/-- Makes a file and the directories on the way to it. -/
def makeFile (files : FileSystem) (place : Place) (content : Bytes) : FileSystem :=
  (files.makeDirectories place.tail).put place (.file content)

/-- The location of a place, from the root. -/
def locationOf (place : Place) : String :=
  "/" ++ "/".intercalate place.reverse

/-! ## Walking -/

/-- One step from a place. Only a directory can be left, in either direction. -/
def stepFrom (files : FileSystem) (here : Place) (name : String) : Except IoError Place :=
  match files.node? here with
  | none => .error .notFound
  | some (.file _) => .error .notADirectory
  | some .directory =>
    if name = ".." then .ok here.tail
    else if name.utf8ByteSize > maxName then .error .nameTooLong
    else .ok (name :: here)

/-- A location that can be walked: not empty, not too long, and without the character that ends
texts for the system. -/
def checkLocation (location : String) : Except IoError Unit :=
  if location.contains '\x00' then .error .nulInName
  else if location.isEmpty then .error .notFound
  else if location.utf8ByteSize > maxLocation then .error .nameTooLong
  else .ok ()

/-- A separator or a dot at the end says that the location is one of a directory. -/
def endsIdle (location : List Char) : Bool :=
  match (Text.split '/' location).getLast? with
  | some part => isIdle part
  | none => false

/-- Where a location leads. The place itself need not exist, the way to it must. -/
def walk (files : FileSystem) (location : String) : Except IoError Place := do
  checkLocation location
  let start := if isRooted location.toList then [] else files.workingDirectory
  ((names location.toList).map String.ofList).foldlM files.stepFrom start

/-- Where a location leads, and what is there. -/
def find (files : FileSystem) (location : String) : Except IoError (Place × Node) := do
  let place ← files.walk location
  match files.node? place with
  | none => .error .notFound
  | some (.file content) =>
    if endsIdle location.toList then .error .notADirectory else .ok (place, .file content)
  | some .directory => .ok (place, .directory)

def exists? (files : FileSystem) (location : String) : Bool :=
  (files.find location).toOption.isSome

/-! ## Reading and writing -/

/-- Opens a location for reading. A directory can be opened, though not read. -/
def openFile (files : FileSystem) (location : String) : Except IoError Place :=
  (files.find location).map (·.1)

/-- The content of an open file, from the start to the end. -/
def readPlace (files : FileSystem) (place : Place) : Except IoError Bytes :=
  match files.node? place with
  | some (.file content) => .ok content
  | some .directory => .error .isADirectory
  | none => .ok []

/-- Opens a location for writing: an empty file is there afterwards. -/
def createFile (files : FileSystem) (location : String) : Except IoError (Place × FileSystem) := do
  let place ← files.walk location
  let emptied := (place, files.put place (.file []))
  match files.node? place with
  | some .directory => .error .isADirectory
  | some (.file _) =>
    if endsIdle location.toList then
      .error (if location.toList.getLast? = some '/' then .isADirectory else .notADirectory)
    else .ok emptied
  | none =>
    if endsIdle location.toList then
      .error (if location.toList.getLast? = some '/' then .isADirectory else .notFound)
    else .ok emptied

/-- An empty file, open for writing. -/
def sink (files : FileSystem) : Stream.Sink := { receptions := files.writes }

/-- What a file has taken is its content from now on, and the disk has answered writes. -/
def store (files : FileSystem) (place : Place) (content : Bytes) (writes : List Stream.Reception) :
    FileSystem :=
  { files.put place (.file content) with writes }

/-- The whole content of a file as text. -/
def readText (files : FileSystem) (location : String) : Except IoError String := do
  let place ← files.openFile location
  let content ← files.readPlace place
  match Bytes.toString? content with
  | some text => .ok text
  | none => .error .notUtf8

/-- The absolute form of a location that something is at. -/
def absolute (files : FileSystem) (location : String) : String :=
  String.ofList (Files.absolute (locationOf files.workingDirectory).toList location.toList)

end FileSystem

end Locator.Files
