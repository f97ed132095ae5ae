import Locator.CommandLine.Arguments
import Locator.CommandLine.Failure
import Locator.Config.Build
import Locator.Config.Printing
import Locator.Resolver.Resolve
import Locator.Text.Quoted

/-!
# Carrying out commands

`Invocation.run` is the whole program after its words are read: what it writes, what it reports, the
files that it leaves, and the exit code. Standard output takes everything; only `cat`, which copies
to it, is defined for any output. The script for a shell is not a part of this: `completionScript`
stands for it.
-/

namespace Locator.CommandLine

open Files (FileSystem)
open Resolver (Action Session)

/-- What the program finds when it starts. -/
structure Surroundings where
  environment : Environment
  files : FileSystem
  network : Http.Network
  /-- The form of domains in URLs. -/
  domains : Url.DomainForm := Url.Domain.toAscii?

/-- What a command writes, and why it did not succeed if it did not. -/
structure Report where
  output : Bytes := []
  /-- Lines for standard error. -/
  notes : List String := []
  failure : Option Failure := none

def Report.line (text : String) : Report := { output := Bytes.ofString (text ++ "\n") }

def Report.failed (failure : Failure) : Report := { failure := some failure }

/-- What a run of the program comes to. -/
structure Outcome where
  report : Report
  records : List Log.Record := []
  files : FileSystem
  /-- What servers were asked for, in order. -/
  requests : List String := []

/-! ## Settings -/

namespace Globals

/-- What the options say about the settings. -/
def overrides (globals : Globals) : Config where
  cache := globals.cacheTtl.map fun seconds => { ttlSeconds := some seconds }
  network :=
    if globals.readTimeoutMillis.isSome || globals.trustSelfSigned then
      some {
        readTimeoutMillis := globals.readTimeoutMillis
        trustSelfSigned := if globals.trustSelfSigned then some true else none }
    else none

/-- The configuration in effect. -/
def configuration (globals : Globals) (surroundings : Surroundings) : Config.Built :=
  let request : Config.Request := {
    userDirectory := globals.configDirectory
    overrides := some globals.overrides }
  request.build surroundings.files surroundings.environment

end Globals

def settingsRecord (settings : Settings) : Log.Record :=
  .debug ("Resolver settings: ResolverSettings \x7b cache_ttl: " ++ settings.cacheTtl.text ++
    ", read_timeout: " ++ settings.readTimeout.text ++
    ", trust_self_signed: " ++ toString settings.trustSelfSigned ++
    ", legacy_extension: " ++ Text.quoted settings.legacyExtension ++
    ", current_extension: " ++ Text.quoted settings.currentExtension ++ " \x7d")

/-- Does something with the settings in effect, if they can be had. -/
def withSettings (globals : Globals) (surroundings : Surroundings)
    (use : Settings → Outcome) : Outcome :=
  let built := globals.configuration surroundings
  match built.result with
  | .error error => {
      report := .failed (.configuration error.message)
      records := built.records
      files := surroundings.files }
  | .ok config =>
    let outcome := use config.resolved
    { outcome with records := built.records ++ outcome.records }

/-- Does something with resources. -/
def withResources (globals : Globals) (surroundings : Surroundings)
    (use : Settings → Action Report) : Outcome :=
  withSettings globals surroundings fun settings =>
    let reader : Http.Reader := {
      timeout := settings.readTimeout
      trustsAnyCertificate := settings.trustSelfSigned
      parse := Url.parse surroundings.domains }
    let start : Session := {
      files := surroundings.files
      cache := { ttl := settings.cacheTtl }
      web := .served reader
        (surroundings.network.transportFor surroundings.domains settings.readTimeout)
      records := [settingsRecord settings] }
    let (report, session) := (use settings).run start
    { report, records := session.records, files := session.files, requests := session.requests }

/-! ## Commands about resources -/

/-- Where a name leads. A strict answer is one that leads somewhere. -/
def resolve (name : String) (parent : Option String) (strict : Bool) (settings : Settings) :
    Action Report := do
  let resolved ← Action.resolve settings parent name
  let leadsNowhere ←
    if strict then (·.isNone) <$> Action.find parent resolved else pure false
  if leadsNowhere then return .failed (.negative ("Cannot resolve " ++ name))
  else return .line resolved

/-- Writes the content of a resource to an output. -/
def cat (name : String) (parent : Option String) (verbose : Bool) (output : Stream.Sink)
    (settings : Settings) : Action Report := do
  let resolved ← Action.resolve settings parent name
  match ← Action.openResource resolved with
  | .error error => return .failed (.ofError error)
  | .ok input =>
    let copied ← Action.copyFrom input output
    let written := copied.sink.written
    match copied.result with
    | .error cause => return { output := written, failure := some (.io cause) }
    | .ok count =>
      let note := "Read " ++ toString count ++ " bytes from " ++ resolved
      return { output := written, notes := if verbose then [note] else [] }

/-- Copies a resource to a file. -/
def copy (source dest : String) (parent : Option String) (quiet : Bool) (settings : Settings) :
    Action Report := do
  let resolved ← Action.resolve settings parent source
  match ← Action.copyResource resolved dest with
  | .error error => return .failed (.ofError error)
  | .ok count =>
    let note := "Copied " ++ toString count ++ " bytes from " ++ resolved ++ " to " ++ dest
    return { notes := if quiet then [] else [note] }

/-! ## Completions -/

def programName : String := "respath"

/-- What to do with the completions for a shell. -/
def completionNotes (shell : Shell) : List String :=
  let generate := programName ++ " completions " ++ shell.name
  ("# Generating " ++ shell.name ++ " completion script") ::
    match shell with
    | .bash => ["# Add to ~/.bashrc:", "#   eval \"$(" ++ generate ++ ")\""]
    | .zsh => [
        "#   " ++ generate ++ " > ~/.zsh/completions/_" ++ programName,
        "# Make sure ~/.zsh/completions is in your $fpath"]
    | .fish => ["#   " ++ generate ++ " > ~/.config/fish/completions/" ++ programName ++ ".fish"]
    | .powershell => ["#   " ++ generate ++ " | Out-String | Invoke-Expression"]
    | .elvish => []

/-- What stands for the script itself. -/
def completionScript : String := "(completion script)"

/-! ## Runs -/

namespace Invocation

/-- Carries out the command. -/
def run (invocation : Invocation) (surroundings : Surroundings) : Outcome :=
  let globals := invocation.globals
  let told (text : String) : Outcome := { report := .line text, files := surroundings.files }
  match invocation.command with
  | .resolve name parent strict =>
    if name.isEmpty then {
      report := .failed (.arguments "resource name cannot be empty")
      files := surroundings.files }
    else withResources globals surroundings (resolve name parent strict)
  | .cat name parent => withResources globals surroundings (cat name parent globals.verbose {})
  | .copy source dest parent =>
    withResources globals surroundings (copy source dest parent globals.quiet)
  | .normalize path => told (Path.normalize path)
  | .directory path => told (Path.directory path)
  | .relative parent path => told (Path.relativeTo parent path)
  | .combine path parent => told (Path.combine parent path)
  | .showConfig format =>
    withSettings globals surroundings fun settings =>
      told (match format with
        | .yaml => settings.toYaml
        | .json => settings.toJson)
  | .completions shell => {
      report := {
        output := Bytes.ofString completionScript
        notes := if globals.quiet then [] else completionNotes shell }
      files := surroundings.files }

/-- How much is shown of what is reported. -/
def verbosity (invocation : Invocation) (environment : Environment) : Log.Verbosity :=
  .choose invocation.globals.verbose invocation.globals.quiet
    (environment.text? "RESPATH_LOG_MODE")

end Invocation

namespace Report

def exitCode (report : Report) : Nat := (report.failure.map Failure.exitCode).getD 0

/-- What is written to standard error, besides the log. -/
def errorText (report : Report) : String :=
  String.join (report.notes.map (· ++ "\n")) ++
    (report.failure.map fun failure => "Error: " ++ failure.message ++ "\n").getD ""

end Report

/-- What is written to standard error at a verbosity. -/
def Outcome.errorText (outcome : Outcome) (verbosity : Log.Verbosity) : String :=
  Log.render verbosity outcome.records ++ outcome.report.errorText

end Locator.CommandLine
