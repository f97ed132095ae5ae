import Locator.CommandLine.Run

/-!
# Which files a run looks at

The program works on a picture of the disk. These are the locations that have to be in it: those of
configuration files, and then, with the settings at hand, those of the resources of a command.
-/

namespace Locator.CommandLine

/-- A directory and all the directories above it. -/
def selfAndAbove (directory : List Char) : List (List Char) :=
  directory :: match _h : Files.parent? directory with
    | none => []
    | some parent => selfAndAbove parent
termination_by directory.length
decreasing_by exact Files.length_of_parent? _h

/-- The configuration files that there may be for a working directory. -/
def projectLocations (workingDirectory : String) : List String :=
  (selfAndAbove workingDirectory.toList).flatMap fun directory =>
    [Config.projectFile, Config.localFile].map (Config.within (String.ofList directory))

/-- The configuration files that an invocation looks for. -/
def Globals.configLocations (globals : Globals) (environment : Environment)
    (workingDirectory : String) : List String :=
  let userDirectory := globals.configDirectory.or (Config.defaultDirectory environment).toOption
  (userDirectory.map (Config.within · Config.userFile)).toList ++ projectLocations workingDirectory

/-- Where a name may lead. -/
def referenceLocations (settings : Settings) (parent : Option String) (name : String) :
    List String :=
  let name := Resolver.stripFilePrefix name
  let names := (Resolver.upgrade? settings name).toList ++ [name]
  names ++ names.map (Path.combine parent)

/-- The files that a command may use. -/
def Command.locations (command : Command) (settings : Settings) : List String :=
  match command with
  | .resolve name parent _ | .cat name parent => referenceLocations settings parent name
  | .copy source dest parent => referenceLocations settings parent source ++ [dest]
  | _ => []

end Locator.CommandLine
