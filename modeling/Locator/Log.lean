/-!
# Log

Records of what happened, and how much of it is shown: `Verbosity.admits` decides which records
reach standard error.
-/

namespace Locator.Log

/-- How serious a record is, the most serious first. -/
inductive Severity where
  | error
  | warn
  | info
  | debug
  | trace
  deriving DecidableEq, Repr

namespace Severity

def all : List Severity := [error, warn, info, debug, trace]

/-- The name in front of a record. -/
def label : Severity → String
  | error => "ERROR"
  | warn => "WARN"
  | info => "INFO"
  | debug => "DEBUG"
  | trace => "TRACE"

/-- Larger for records of more detail. -/
def detail : Severity → Nat
  | error => 1
  | warn => 2
  | info => 3
  | debug => 4
  | trace => 5

end Severity

/-- How much is shown. -/
inductive Verbosity where
  | quiet
  | normal
  | verbose
  deriving DecidableEq, Repr

namespace Verbosity

def name : Verbosity → String
  | quiet => "quiet"
  | normal => "normal"
  | verbose => "verbose"

/-- Position in the order quiet, normal, verbose. -/
def rank : Verbosity → Nat
  | quiet => 0
  | normal => 1
  | verbose => 2

/-- The name of a verbosity in letters of either case. The three names hold ASCII letters only, and
none that a letter outside ASCII is the capital of. -/
def parse? (text : String) : Option Verbosity :=
  match String.ofList (text.toList.map Char.toLower) with
  | "quiet" => some quiet
  | "normal" => some normal
  | "verbose" => some verbose
  | _ => none

/-- The verbosity that a text names, or what to say about a text that names none. -/
def parse (text : String) : Except String Verbosity :=
  match parse? text with
  | some verbosity => .ok verbosity
  | none => .error ("invalid log level: " ++ text)

/-- The least serious records that are shown. -/
def threshold : Verbosity → Severity
  | quiet => .error
  | normal => .warn
  | verbose => .debug

def admits (verbosity : Verbosity) (severity : Severity) : Bool :=
  severity.detail ≤ verbosity.threshold.detail

/-- The verbosity for two flags and the value of the environment variable for it. The flags win,
and of the two the one for more; a value that names none is as good as no value. -/
def choose (verboseFlag quietFlag : Bool) (setting : Option String) : Verbosity :=
  if verboseFlag then verbose
  else if quietFlag then quiet
  else (setting.bind parse?).getD normal

end Verbosity

/-- Something that happened. -/
structure Record where
  severity : Severity
  text : String
  deriving DecidableEq, Repr

namespace Record

def warn (text : String) : Record := ⟨.warn, text⟩

def debug (text : String) : Record := ⟨.debug, text⟩

/-- The severity, a colon and the text. -/
def line (record : Record) : String :=
  record.severity.label ++ ": " ++ record.text

end Record

/-- What the records write at a verbosity: one line for each that it admits. -/
def render (verbosity : Verbosity) (records : List Record) : String :=
  String.join ((records.filter (verbosity.admits ·.severity)).map (·.line ++ "\n"))

end Locator.Log
