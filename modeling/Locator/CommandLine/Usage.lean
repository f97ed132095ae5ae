/-!
# Taking command lines apart

A level of a command line has options, positional arguments and subcommands. `Level.scan` sorts the
words of a level into these and stops at a subcommand. A value is only looked at when something
follows it, so the order of the words decides which mistake is found first.
-/

namespace Locator.CommandLine

/-- Why a command line is not carried out. -/
inductive Usage where
  | help
  | version
  /-- There is no word at all. -/
  | nothingGiven
  | unknownArgument
  | unknownSubcommand
  | missingSubcommand
  | missingArgument
  /-- A value is missing or not one of those that there are. -/
  | invalidValue
  /-- A value cannot be read. -/
  | unreadableValue
  /-- Something is given twice. -/
  | conflict
  /-- A flag is given a value. -/
  | surplusValue
  deriving DecidableEq, Repr

namespace Usage

/-- Asking for help is no mistake. -/
def exitCode : Usage → Nat
  | help | version => 0
  | _ => 2

end Usage

/-- An option or a positional argument. -/
structure Parameter where
  name : String
  /-- What is wrong with a value, if anything. -/
  objection : String → Option Usage := fun _ => none

/-- What can be given at one level. -/
structure Level where
  flags : List String
  options : List Parameter
  positionals : List Parameter
  subcommands : List String
  hasVersion : Bool := false

/-- What is given at a level: the flags, and the values by the names of their parameters. -/
structure Given where
  flags : List String := []
  values : List (String × String) := []
  deriving DecidableEq, Repr

namespace Given

def has (given : Given) (flag : String) : Bool := given.flags.contains flag

def value? (given : Given) (name : String) : Option String := given.values.lookup name

end Given

/-- The state of a scan. -/
structure Scan where
  given : Given := {}
  /-- The parameter named last and its value, which has not been looked at yet. -/
  pending : Option (Parameter × Option String) := none
  /-- How many positional arguments there were. -/
  position : Nat := 0
  /-- Two dashes say that only positional arguments follow. -/
  onlyPositionals : Bool := false

namespace Scan

/-- The next word is the value of an option. -/
def awaitsValue (scan : Scan) : Bool := scan.pending.any (·.2.isNone)

/-- Looks at the pending value. -/
def settle (scan : Scan) : Except Usage Scan :=
  match scan.pending with
  | none => .ok scan
  | some (_, none) => .error .invalidValue
  | some (parameter, some value) =>
    if (scan.given.value? parameter.name).isSome then .error .conflict
    else
      match parameter.objection value with
      | some usage => .error usage
      | none => .ok {
          scan with
          given := { scan.given with values := (parameter.name, value) :: scan.given.values }
          pending := none }

/-- Takes a flag. -/
def takeFlag (scan : Scan) (flag : String) : Except Usage Scan := do
  let scan ← scan.settle
  if scan.given.has flag then throw .conflict
  return { scan with given := { scan.given with flags := flag :: scan.given.flags } }

/-- Takes an option, with its value or in expectation of it. An attached value is looked at right
away. -/
def takeOption (scan : Scan) (parameter : Parameter) (value : Option String) :
    Except Usage Scan := do
  let scan ← scan.settle
  let scan := { scan with pending := some (parameter, value) }
  if value.isSome then scan.settle else return scan

/-- Takes the value of the option before it. -/
def takeValue (scan : Scan) (value : String) : Scan :=
  { scan with pending := scan.pending.map fun (parameter, _) => (parameter, some value) }

end Scan

/-! ## Words -/

/-- A word with two dashes in front: the name, and the value behind an equals sign. -/
def longName? (word : String) : Option (String × Option String) :=
  match word.toList with
  | '-' :: '-' :: rest =>
    let name := rest.takeWhile (· != '=')
    let value := match rest.drop name.length with
      | _ :: value => some (String.ofList value)
      | [] => none
    some (String.ofList name, value)
  | _ => none

/-- The first letter of a word with one dash in front. -/
def shortName? (word : String) : Option Char :=
  match word.toList with
  | '-' :: letter :: _ => some letter
  | _ => none

namespace Level

/-- Takes a word with two dashes in front. -/
def takeLong (level : Level) (scan : Scan) (name : String) (value : Option String) :
    Except Usage Scan :=
  match level.options.find? (·.name = name) with
  | some option => scan.takeOption option value
  | none =>
    let asksVersion := name = "version" && level.hasVersion
    if name = "help" || asksVersion || level.flags.contains name then
      if value.isSome then .error .surplusValue
      else if level.flags.contains name then scan.takeFlag name
      else do
        let _ ← scan.settle
        throw (if asksVersion then .version else .help)
    else .error .unknownArgument

/-- Takes a word with one dash in front. -/
def takeShort (level : Level) (scan : Scan) (letter : Char) : Except Usage Scan := do
  let usage ← if letter = 'h' then pure Usage.help
    else if letter = 'V' && level.hasVersion then pure Usage.version
    else throw .unknownArgument
  let _ ← scan.settle
  throw usage

/-- Takes a positional argument. Where there can be none, a word is taken for a subcommand. -/
def takePositional (level : Level) (scan : Scan) (word : String) : Except Usage Scan :=
  match level.positionals[scan.position]? with
  | some parameter => do
    let scan ← scan.settle
    return { scan with pending := some (parameter, some word), position := scan.position + 1 }
  | none =>
    if level.subcommands.isEmpty then .error .unknownArgument
    else if scan.onlyPositionals && level.subcommands.contains word then .error .unknownArgument
    else .error .unknownSubcommand

/-- Takes a word that is no subcommand. -/
def take (level : Level) (scan : Scan) (word : String) : Except Usage Scan :=
  if scan.onlyPositionals then level.takePositional scan word
  else if word = "--" then .ok { scan with onlyPositionals := true }
  else
    match longName? word, shortName? word with
    | some (name, value), _ => level.takeLong scan name value
    | none, some letter => level.takeShort scan letter
    | none, none =>
      if scan.awaitsValue then .ok (scan.takeValue word) else level.takePositional scan word

/-- Takes words up to a subcommand; gives it with the words behind it. -/
def scan (level : Level) (state : Scan) :
    List String → Except Usage (Scan × Option (String × List String))
  | [] => .ok (state, none)
  | word :: rest =>
    if !state.onlyPositionals && !state.awaitsValue && level.subcommands.contains word then
      .ok (state, some (word, rest))
    else do
      let next ← level.take state word
      level.scan next rest

end Level

end Locator.CommandLine
