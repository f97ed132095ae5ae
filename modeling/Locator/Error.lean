import Locator.Url.Fault

/-!
# Errors

Everything that can go wrong with a path, a file, a URL or a configuration, by cause. The wording
is in the functions called `message`.
-/

namespace Locator

/-! ## Files and streams -/

/-- The kinds of failure of a file or a stream that are told apart, and the rest by name. -/
inductive IoKind where
  | notFound
  | interrupted
  | isADirectory
  | notADirectory
  | invalidName
  | invalidInput
  | invalidData
  | writeZero
  | timedOut
  | other (name : String)
  deriving DecidableEq, Repr

/-- A failure that the client for requests tells of. -/
structure ClientError where
  text : String
  /-- The time was up. -/
  isTimeout : Bool
  deriving DecidableEq, Repr

/-- What is inside a failure of a file or a stream: words alone, or a failure of the client. -/
inductive IoDetail where
  | stated (text : String)
  | client (error : ClientError)
  deriving DecidableEq, Repr

instance : Coe String IoDetail := ⟨.stated⟩

/-- A failure of a file or a stream. -/
structure IoError where
  kind : IoKind
  detail : IoDetail
  deriving DecidableEq, Repr

namespace IoError

/-- The words for a failure. -/
def text (error : IoError) : String :=
  match error.detail with
  | .stated text => text
  | .client error => error.text

/-- The failure of the client that is inside, if there is one. -/
def clientError? (error : IoError) : Option ClientError :=
  match error.detail with
  | .stated _ => none
  | .client error => some error

/-- A failure of the client as one of a stream. It has no kind of its own there, not even when the
time was up. -/
def ofClient (error : ClientError) : IoError := ⟨.other "Other", .client error⟩

def notFound : IoError := ⟨.notFound, "No such file or directory (os error 2)"⟩
def isADirectory : IoError := ⟨.isADirectory, "Is a directory (os error 21)"⟩
def notADirectory : IoError := ⟨.notADirectory, "Not a directory (os error 20)"⟩
def nameTooLong : IoError := ⟨.invalidName, "File name too long (os error 36)"⟩
def nulInName : IoError := ⟨.invalidInput, "file name contained an unexpected NUL byte"⟩
def notUtf8 : IoError := ⟨.invalidData, "stream did not contain valid UTF-8"⟩
def nothingWritten : IoError := ⟨.writeZero, "failed to write whole buffer"⟩
def brokenBody : IoError := ofClient ⟨"request or response body error", false⟩
def bodyTimeout : IoError := ofClient ⟨"operation timed out", true⟩

end IoError

/-! ## Configurations -/

/-- What is wrong with the value of a configuration field. -/
inductive Violation where
  | zeroTtl
  | zeroTimeout
  | blankExtension
  | leadingDot (bare : String)
  | pathSeparator
  | sameExtensions (extension : String)
  | notAnInteger (value : String)
  | notABoolean (value : String)
  | malformedYaml
  | stated (message : String)
  deriving DecidableEq, Repr

namespace Violation

def message : Violation → String
  | zeroTtl => "TTL must be greater than 0"
  | zeroTimeout => "Timeout must be greater than 0"
  | blankExtension => "Cannot be empty or only whitespace"
  | leadingDot bare => "Give the extension without a leading dot, e.g. '" ++ bare ++ "'"
  | pathSeparator => "Cannot contain path separators"
  | sameExtensions extension => "legacy and current extensions are both '" ++ extension ++ "'"
  | notAnInteger value => "Must be a non-negative integer, got '" ++ value ++ "'"
  | notABoolean value =>
    "Invalid boolean value: '" ++ value ++ "' (expected true/false/1/0/yes/no/on/off)"
  | malformedYaml => "Invalid YAML"
  | stated message => message

end Violation

/-- What is wrong with a path. -/
inductive PathFault where
  | unreadable (cause : IoError)
  | noHome
  | stated (reason : String)
  deriving DecidableEq, Repr

namespace PathFault

def message : PathFault → String
  | unreadable cause => "Failed to read configuration file: " ++ cause.text
  | noHome => "Cannot determine home directory"
  | stated reason => reason

end PathFault

/-! ## Pages -/

/-- Why a page could not be had from a server. -/
inductive FetchFault where
  /-- No complete head of a reply came back from the server of the URL. -/
  | noReply (url : String)
  | tooManyRedirects (url : String)
  /-- No request can be made for the URL, or for one of another scheme that a redirect led to. -/
  | noRequest (url : String)
  | body (cause : IoError)
  | stated (reason : String)
  deriving DecidableEq, Repr

namespace FetchFault

def message : FetchFault → String
  | noReply url => "error sending request for url (" ++ url ++ ")"
  | tooManyRedirects url => "error following redirect for url (" ++ url ++ ")"
  | noRequest url => "builder error for url (" ++ url ++ ")"
  | body cause => cause.text
  | stated reason => reason

end FetchFault

/-! ## All errors -/

/-- What can go wrong with a resource or a configuration. -/
inductive Error where
  | io (cause : IoError)
  | invalidPath (path : String) (fault : PathFault)
  | validation (field : String) (violation : Violation)
  | invalidUrl (url : String) (fault : Url.Fault)
  | unsupportedScheme (url scheme : String)
  | fetch (url : String) (fault : FetchFault)
  | httpStatus (url : String) (status : Nat)
  | timeout (url : String) (millis : Nat)
  deriving DecidableEq, Repr

namespace Error

def message : Error → String
  | io cause => "I/O error: " ++ cause.text
  | invalidPath path fault => "invalid path " ++ path ++ ": " ++ fault.message
  | validation field violation =>
    "validation error for '" ++ field ++ "': " ++ violation.message
  | invalidUrl url fault => "invalid URL '" ++ url ++ "': " ++ fault.message
  | unsupportedScheme url scheme => "unsupported URL scheme '" ++ scheme ++ "' in " ++ url
  | fetch url fault => "failed to fetch " ++ url ++ ": " ++ fault.message
  | httpStatus url status => "failed to fetch " ++ url ++ ": HTTP status " ++ toString status
  | timeout url millis => "timed out after " ++ toString millis ++ "ms reading " ++ url

/-- The words of the error underneath, where there is one. -/
def source? : Error → Option String
  | io cause => some cause.text
  | fetch _ fault => some fault.message
  | _ => none

def isTimeout : Error → Bool
  | timeout _ _ => true
  | _ => false

/-- The resource does not exist: no such file, or the server says that there is no such page. -/
def isNotFound : Error → Bool
  | io cause => cause.kind = .notFound
  | httpStatus _ status => status = 404 || status = 410
  | _ => false

/-- The server was asked and did not deliver the page. -/
def isFetchFailure : Error → Bool
  | fetch _ _ | httpStatus _ _ | timeout _ _ => true
  | _ => false

end Error

end Locator
