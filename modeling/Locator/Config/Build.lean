import Locator.Config.Discovery
import Locator.Config.Merge
import Locator.Config.Validation
import Locator.Log

/-!
# The configuration in effect

`Request.build` lays everything over each other that says something about the settings: files, then
environment variables, then what is given directly. The outcome has to be valid.
-/

namespace Locator.Config

open Files (FileSystem)

/-- Which sources are to be taken into account. -/
structure Request where
  /-- Where the search for files starts, if not in the working directory. -/
  workingDirectory : Option String := none
  /-- Where the configuration of the user is, if not in the default directory. -/
  userDirectory : Option String := none
  skipFiles : Bool := false
  skipEnvironment : Bool := false
  overrides : Option Config := none

/-- What making a configuration comes to, and what is reported on the way. -/
structure Built where
  records : List Log.Record := []
  result : Except Error Config

def mergeRecord (source : Source) : Log.Record :=
  .debug ("merging configuration from " ++ source.location ++ " (precedence " ++
    toString source.precedence ++ ")")

namespace Request

/-- The configuration files that the request asks for. -/
def sources (request : Request) (files : FileSystem) (environment : Environment) :
    Except Error (List Source) :=
  if request.skipFiles then .ok []
  else
    let start := request.workingDirectory.getD (FileSystem.locationOf files.workingDirectory)
    load files environment start request.userDirectory

/-- Lays the environment and the overrides over the files, and checks the outcome. -/
def complete (request : Request) (environment : Environment) (config : Config) :
    Except Error Config := do
  let config ←
    if request.skipEnvironment then pure config
    else
      let overlay := environment.overlay config
      match overlay.error with
      | some error => throw error
      | none => pure overlay.config
  let config := match request.overrides with
    | some overrides => overrides.atop config
    | none => config
  config.validate
  return config

def build (request : Request) (files : FileSystem) (environment : Environment) : Built :=
  match request.sources files environment with
  | .error error => { result := .error error }
  | .ok sources => {
      records := sources.map mergeRecord
      result := request.complete environment (merge (sources.map (·.config))) }

end Request

end Locator.Config
