import Locator.CommandLine.Locations

/-!
# The program

Everything that touches the outside: the words and variables that the program is started with, the
disk and the standard streams. The disk is looked at first, and only where the command may need it;
`Invocation.run` decides what happens, and its outcome is put into effect. There is no network:
every server is out of reach. The list of accounts is not looked at, so without the variable for it
nobody has a home directory, and a disk that is full is noticed only when its files are written.
-/

namespace Locator.Main

open CommandLine (Invocation Surroundings)
open Files (FileSystem Place)

/-! ## Looking -/

/-- What is on disk at a location. -/
def lookAt (location : String) : IO (Option Files.Node) := do
  try
    let content ← IO.FS.readBinFile location
    return some (.file content.toList)
  catch _ =>
    try
      let _ ← IO.FS.realPath location
      return some .directory
    catch _ => return none

/-- The starts of a location that end in front of a separator, and the whole of it. -/
def starts (location : List Char) : List (List Char) :=
  ((List.range location.length).filter fun count =>
    0 < count && location[count]? == some '/').map (location.take ·) ++ [location]

/-- Adds what is at a location, and on the way there, to a picture of the disk. -/
def addLocation (files : FileSystem) (location : String) : IO FileSystem :=
  (starts location.toList).foldlM (fun files start => do
    let start := String.ofList start
    match files.walk start with
    | .error _ => return files
    | .ok place =>
      match ← lookAt start with
      | some node => return if place.isEmpty then files else files.put place node
      | none => return files) files

def addLocations (files : FileSystem) (locations : List String) : IO FileSystem :=
  locations.foldlM addLocation files

/-- The variables that the program knows. -/
def readEnvironment : IO Environment := do
  let names := ["HOME", "RESPATH_LOG_MODE", CommandLine.configDirectoryVariable] ++
    Environment.bindings.map (·.name)
  let values ← names.mapM fun name => return (← IO.getEnv name).map fun text =>
    (name, Bytes.ofString text)
  return { values := values.filterMap id }

/-- The picture of the disk that an invocation needs. -/
def readFiles (invocation : Invocation) (environment : Environment) : IO FileSystem := do
  let here := toString (← IO.currentDir)
  let place := ((Files.names here.toList).map String.ofList).reverse
  let bare : FileSystem := { workingDirectory := place }
  let start := bare.makeDirectories place
  let files ← addLocations start (invocation.globals.configLocations environment here)
  let surroundings : Surroundings := { environment, files, network := fun _ => none }
  match (invocation.globals.configuration surroundings).result with
  | .ok config => addLocations files (invocation.command.locations config.resolved)
  | .error _ => return files

/-! ## Acting -/

/-- Writes the files that a run has changed. -/
def writeChanges (before after : FileSystem) : IO Unit :=
  after.entries.forM fun (place, node) => do
    if before.node? place ≠ some node then
      match node with
      | .file content =>
        IO.FS.writeBinFile (FileSystem.locationOf place) ⟨content.toArray⟩
      | .directory => return

/-- What is said about a command line that is not carried out. -/
def usageText : String :=
  "Usage: respath [OPTIONS] <COMMAND>\n\nCommands: " ++
    ", ".intercalate CommandLine.topLevel.subcommands ++ "\n"

def carryOut (invocation : Invocation) (environment : Environment) : IO UInt32 := do
  let files ← readFiles invocation environment
  let outcome := invocation.run { environment, files, network := fun _ => none }
  writeChanges files outcome.files
  let output ← IO.getStdout
  output.write ⟨outcome.report.output.toArray⟩
  output.flush
  (← IO.getStderr).putStr (outcome.errorText (invocation.verbosity environment))
  return outcome.report.exitCode.toUInt32

end Locator.Main

/-- Runs the command that the words after the name of the program stand for. -/
def main (words : List String) : IO UInt32 := do
  let environment ← Locator.Main.readEnvironment
  match Locator.CommandLine.parse environment words with
  | .ok invocation => Locator.Main.carryOut invocation environment
  | .error usage =>
    let stream ← if usage.exitCode = 0 then IO.getStdout else IO.getStderr
    stream.putStr Locator.Main.usageText
    return usage.exitCode.toUInt32
