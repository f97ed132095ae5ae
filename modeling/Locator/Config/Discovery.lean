import Locator.Config.Environment
import Locator.Config.Reading
import Locator.Files.System

/-!
# Finding configuration files

The configuration of the user is in one directory; those of a project are in the nearest directory,
going up from where the search starts, that holds any. `load` reads them all, those that are to be
laid over others behind them.
-/

namespace Locator.Config

open Files (FileSystem)

/-- A configuration file that was read. -/
structure Source where
  location : String
  /-- Files of higher precedence are laid over the others. -/
  precedence : Nat
  config : Config
  deriving DecidableEq, Repr

def userFile : String := "config.yaml"
def projectFile : String := "respath.yaml"
def localFile : String := "respath.local.yaml"
def userDirectory : String := ".respath"

/-- The location of a name in a directory. -/
def within (directory name : String) : String :=
  String.ofList (Files.join directory.toList name.toList)

/-- Reads a configuration file. -/
def loadFile (files : FileSystem) (location : String) : Except Error Config :=
  match files.readText location with
  | .error cause => .error (.invalidPath location (.unreadable cause))
  | .ok text =>
    match parse? text with
    | some config => .ok config
    | none => .error (.validation location .malformedYaml)

/-- Reads a configuration file if it is there. -/
def loadIfPresent (files : FileSystem) (location : String) (precedence : Nat) :
    Except Error (List Source) :=
  if files.exists? location then
    (loadFile files location).map fun config => [{ location, precedence, config }]
  else .ok []

/-- The directory of the user's configuration, in the home directory. The variable for that counts
before the list of accounts. -/
def defaultDirectory (environment : Environment) : Except Error String :=
  match (environment.path? "HOME").or environment.accountHome with
  | some home => .ok (within home userDirectory)
  | none => .error (.invalidPath "~" .noHome)

/-- The configuration of the user, in a given directory or the default one. -/
def loadUser (files : FileSystem) (environment : Environment) (directory : Option String) :
    Except Error (List Source) := do
  let directory ← match directory with
    | some directory => pure directory
    | none => defaultDirectory environment
  loadIfPresent files (within directory userFile) 1

/-- The configurations in the nearest directory, from here upwards, that holds any. -/
def discover (files : FileSystem) (directory : List Char) : Except Error (List Source) := do
  let here := String.ofList directory
  let project ← loadIfPresent files (within here projectFile) 2
  let own ← loadIfPresent files (within here localFile) 3
  if !(project ++ own).isEmpty then return project ++ own
  else
    match _h : Files.parent? directory with
    | none => return []
    | some parent => discover files parent
termination_by directory.length
decreasing_by exact Files.length_of_parent? _h

/-- All configuration files that apply in a working directory, in the order of their precedence. -/
def load (files : FileSystem) (environment : Environment) (workingDirectory : String)
    (userDirectory : Option String) : Except Error (List Source) := do
  let user ← loadUser files environment userDirectory
  return user ++ (← discover files workingDirectory.toList)

end Locator.Config
