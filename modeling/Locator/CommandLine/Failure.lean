import Locator.Error

/-!
# Failures of commands

How a command ends when it does not succeed: the text for standard error and the exit code.
-/

namespace Locator.CommandLine

/-- Why a command did not succeed. -/
inductive Failure where
  /-- The command ran, and the answer is no. -/
  | negative (text : String)
  | timeout (error : Error)
  | arguments (text : String)
  | io (cause : IoError)
  | resource (error : Error)
  | configuration (text : String)
  deriving DecidableEq, Repr

namespace Failure

def exitCode : Failure → Nat
  | negative _ => 1
  | timeout _ => 2
  | arguments _ => 4
  | io _ => 5
  | resource _ => 6
  | configuration _ => 7

def message : Failure → String
  | negative text => text
  | timeout error | resource error => error.message
  | arguments text => "Invalid arguments: " ++ text
  | io cause => "I/O error: " ++ cause.text
  | configuration text => "Configuration error: " ++ text

/-- The words of the error underneath, where there is one. -/
def source? : Failure → Option String
  | timeout error | resource error => some error.message
  | io cause => some cause.text
  | _ => none

/-- The failure of a command that met the error. -/
def ofError : Error → Failure
  | .io cause => io cause
  | error@(.timeout _ _) => timeout error
  | error@(.validation _ _) | error@(.invalidPath _ _) => configuration error.message
  | error => resource error

end Failure

end Locator.CommandLine
