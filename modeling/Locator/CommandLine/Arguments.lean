import Locator.CommandLine.Usage
import Locator.Config.Environment

/-!
# The command line

The commands that there are, the options that every command takes, and how an `Invocation` is read
from words.
-/

namespace Locator.CommandLine

/-! ## Invocations -/

inductive Format where
  | yaml
  | json
  deriving DecidableEq, Repr

inductive Shell where
  | bash
  | elvish
  | fish
  | powershell
  | zsh
  deriving DecidableEq, Repr

inductive Command where
  | resolve (name : String) (parent : Option String) (strict : Bool)
  | cat (name : String) (parent : Option String)
  | copy (source dest : String) (parent : Option String)
  | normalize (path : String)
  | directory (path : String)
  | relative (parent path : String)
  | combine (path : String) (parent : Option String)
  | showConfig (format : Format)
  | completions (shell : Shell)
  deriving DecidableEq, Repr

/-- What every command can be told. -/
structure Globals where
  verbose : Bool := false
  quiet : Bool := false
  configDirectory : Option String := none
  cacheTtl : Option UInt64 := none
  readTimeoutMillis : Option UInt64 := none
  trustSelfSigned : Bool := false
  deriving DecidableEq, Repr

structure Invocation where
  globals : Globals
  command : Command
  deriving DecidableEq, Repr

/-! ## Values -/

def formats : List (String × Format) := [("yaml", .yaml), ("json", .json)]

def shells : List (String × Shell) :=
  [("bash", .bash), ("elvish", .elvish), ("fish", .fish), ("powershell", .powershell),
    ("zsh", .zsh)]

def Shell.name (shell : Shell) : String :=
  ((shells.find? (·.2 = shell)).map (·.1)).getD ""

/-- One of the words of a list is expected. -/
def objectUnlessIn {α : Type} (words : List (String × α)) (value : String) : Option Usage :=
  if (words.lookup value).isSome then none else some .invalidValue

def objectUnlessNumber (value : String) : Option Usage :=
  if (Environment.parseNumber? value.toList).isSome then none else some .unreadableValue

def objectIfEmpty (value : String) : Option Usage :=
  if value.isEmpty then some .invalidValue else none

/-! ## Levels -/

def configDirectoryOption : String := "config-dir"
def configDirectoryVariable : String := "RESPATH_CONFIG_DIR"

def globalFlags : List String := ["verbose", "quiet", "trust-self-signed"]

def globalOptions : List Parameter := [
  { name := configDirectoryOption, objection := objectIfEmpty },
  { name := "cache-ttl", objection := objectUnlessNumber },
  { name := "read-timeout-ms", objection := objectUnlessNumber }]

/-- What a command takes: its flags, options and positional arguments. -/
structure Signature where
  flags : List String := []
  options : List Parameter := []
  positionals : List Parameter := []

def signatures : List (String × Signature) := [
  ("resolve", {
    flags := ["strict"], options := [{ name := "parent" }], positionals := [{ name := "name" }] }),
  ("cat", { options := [{ name := "parent" }], positionals := [{ name := "name" }] }),
  ("copy", {
    options := [{ name := "parent" }]
    positionals := [{ name := "source" }, { name := "dest" }] }),
  ("normalize", { positionals := [{ name := "path" }] }),
  ("directory", { positionals := [{ name := "path" }] }),
  ("relative", { positionals := [{ name := "parent" }, { name := "path" }] }),
  ("combine", { options := [{ name := "parent" }], positionals := [{ name := "path" }] }),
  ("show-config", { options := [{ name := "format", objection := objectUnlessIn formats }] }),
  ("completions", { positionals := [{ name := "shell", objection := objectUnlessIn shells }] })]

def helpCommand : String := "help"

def topLevel : Level where
  flags := globalFlags
  options := globalOptions
  positionals := []
  subcommands := signatures.map (·.1) ++ [helpCommand]
  hasVersion := true

def Signature.level (signature : Signature) : Level where
  flags := globalFlags ++ signature.flags
  options := globalOptions ++ signature.options
  positionals := signature.positionals
  subcommands := []

/-! ## Reading -/

/-- Looks at the last value and at the variable that stands in for an option. -/
def finish (environment : Environment) (scan : Scan) : Except Usage Given := do
  let given := (← scan.settle).given
  if (given.value? configDirectoryOption).isSome then return given
  else
    match environment.path? configDirectoryVariable with
    | none => return given
    | some directory =>
      match objectIfEmpty directory with
      | some usage => throw usage
      | none => return given

def required (given : Given) (name : String) : Except Usage String :=
  match given.value? name with
  | some value => .ok value
  | none => .error .missingArgument

/-- The command that a name and what is given with it stand for. -/
def readCommand (name : String) (given : Given) : Except Usage Command := do
  let parent := given.value? "parent"
  match name with
  | "resolve" => return .resolve (← required given "name") parent (given.has "strict")
  | "cat" => return .cat (← required given "name") parent
  | "copy" => return .copy (← required given "source") (← required given "dest") parent
  | "normalize" => return .normalize (← required given "path")
  | "directory" => return .directory (← required given "path")
  | "relative" => return .relative (← required given "parent") (← required given "path")
  | "combine" => return .combine (← required given "path") parent
  | "show-config" =>
    return .showConfig (((given.value? "format").bind fun word => formats.lookup word).getD .yaml)
  | "completions" =>
    match shells.lookup (← required given "shell") with
    | some shell => return .completions shell
    | none => throw .invalidValue
  | _ => throw .unknownSubcommand

/-- The options that every command takes, where those behind the command win. -/
def readGlobals (environment : Environment) (inFront behind : Given) : Globals :=
  let has (flag : String) := inFront.has flag || behind.has flag
  let value? (name : String) := (behind.value? name).or (inFront.value? name)
  let number? (name : String) :=
    (value? name).bind fun value => Environment.parseNumber? value.toList
  { verbose := has "verbose"
    quiet := has "quiet"
    configDirectory :=
      (value? configDirectoryOption).or (environment.path? configDirectoryVariable)
    cacheTtl := number? "cache-ttl"
    readTimeoutMillis := number? "read-timeout-ms"
    trustSelfSigned := has "trust-self-signed" }

/-- What asking for help about a command comes to; commands have no commands of their own. -/
def readHelp (words : List String) : Usage :=
  match words with
  | [] => .help
  | [word] => if topLevel.subcommands.contains word then .help else .unknownSubcommand
  | _ => .unknownSubcommand

/-- A command line without a command. -/
def withoutCommand (environment : Environment) (scan : Scan) : Except Usage Invocation := do
  let given ← finish environment scan
  let silent := given.flags.isEmpty && given.values.isEmpty &&
    (environment.path? configDirectoryVariable).isNone
  throw (if silent then .nothingGiven else .missingSubcommand)

/-- Reads a command line, without the name of the program. -/
def parse (environment : Environment) (words : List String) : Except Usage Invocation := do
  let (top, rest) ← topLevel.scan {} words
  match rest with
  | none => withoutCommand environment top
  | some (name, words) =>
    if name = helpCommand then throw (readHelp words)
    else
      let signature := (signatures.lookup name).getD {}
      let (inner, _) ← signature.level.scan {} words
      let behind ← finish environment inner
      let command ← readCommand name behind
      -- the last value in front of the command is looked at when the command is complete
      let inFront ← finish environment top
      return { globals := readGlobals environment inFront behind, command }

end Locator.CommandLine
