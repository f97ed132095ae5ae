import Locator.Bytes
import Locator.Config.Basic
import Locator.Error
import Locator.Text.Blank
import Locator.Text.Number

/-!
# Configuration from environment variables

Five variables set one value each. `Environment.overlay` takes them in a fixed order, stops at the
first one whose value cannot be read, and keeps what it has set up to there.
-/

namespace Locator

/-- The variables of a process with their values, and whose process it is. -/
structure Environment where
  values : List (String × Bytes) := []
  /-- The home directory in the system's list of accounts. -/
  accountHome : Option String := none

namespace Environment

/-- The value of a variable as text; one that is not text counts as not set. -/
def text? (environment : Environment) (name : String) : Option String :=
  (environment.values.lookup name).bind Bytes.toString?

/-- The value of a variable as a location. Bytes that are not text stand for characters that no
location in use has. -/
def path? (environment : Environment) (name : String) : Option String :=
  (environment.values.lookup name).map fun bytes =>
    (Bytes.toString? bytes).getD <| String.ofList <| bytes.map fun byte =>
      if byte < 128 then Char.ofNat byte.toNat else '\ufffd'

/-! ## Reading values -/

/-- A number in decimal digits, with at most one `+` in front, that fits 64 bits. -/
def parseNumber? (text : List Char) : Option UInt64 :=
  let digits := match text with
    | '+' :: rest => rest
    | chars => chars
  (Text.number? 10 digits).bind Text.fitted?

/-- A number with blanks around it. -/
def readNumber (text : String) : Except Violation UInt64 :=
  match parseNumber? (Text.trim text.toList) with
  | some number => .ok number
  | none => .error (.notAnInteger text)

/-- One of the words for yes and no, in letters of either case. No letter outside ASCII is a capital
of a letter of theirs. -/
def readSwitch (text : String) : Except Violation Bool :=
  let word := String.ofList (text.toList.map Char.toLower)
  if ["true", "1", "yes", "on"].contains word then .ok true
  else if ["false", "0", "no", "off"].contains word then .ok false
  else .error (.notABoolean text)

/-! ## Setting values -/

/-- Changes the cache section, after adding one that says nothing if there is none. -/
def inCache (change : CacheSection → CacheSection) (config : Config) : Config :=
  { config with cache := some (change (config.cache.getD {})) }

def inNetwork (change : NetworkSection → NetworkSection) (config : Config) : Config :=
  { config with network := some (change (config.network.getD {})) }

def inExtensions (change : ExtensionSection → ExtensionSection) (config : Config) : Config :=
  { config with extensions := some (change (config.extensions.getD {})) }

/-- A variable and what its value does to a configuration. -/
structure Binding where
  name : String
  /-- Adds the section of the value; this happens before the value is read. -/
  openSection : Config → Config
  /-- Reads the value and sets it. -/
  assign : String → Except Violation (Config → Config)

/-- The bindings in the order in which they take effect. -/
def bindings : List Binding := [
  { name := "RESPATH_CACHE_TTL_SECONDS"
    openSection := inCache id
    assign := fun text => do
      let seconds ← readNumber text
      return inCache fun cache => { cache with ttlSeconds := some seconds } },
  { name := "RESPATH_READ_TIMEOUT_MS"
    openSection := inNetwork id
    assign := fun text => do
      let millis ← readNumber text
      return inNetwork fun network => { network with readTimeoutMillis := some millis } },
  { name := "RESPATH_TRUST_SELF_SIGNED"
    openSection := inNetwork id
    assign := fun text => do
      let trust ← readSwitch text
      return inNetwork fun network => { network with trustSelfSigned := some trust } },
  { name := "RESPATH_LEGACY_EXTENSION"
    openSection := inExtensions id
    assign := fun text =>
      .ok (inExtensions fun extensions => { extensions with legacy := some text }) },
  { name := "RESPATH_CURRENT_EXTENSION"
    openSection := inExtensions id
    assign := fun text =>
      .ok (inExtensions fun extensions => { extensions with current := some text }) }]

/-- What a run through the bindings leaves: the configuration, and the error that ended it early. -/
structure Overlay where
  config : Config
  error : Option Error := none

/-- Lets the variables of the bindings take effect one after another. -/
def overlayBindings (environment : Environment) : List Binding → Config → Overlay
  | [], config => { config }
  | binding :: rest, config =>
    match environment.text? binding.name with
    | none => overlayBindings environment rest config
    | some text =>
      let opened := binding.openSection config
      match binding.assign text with
      | .ok set => overlayBindings environment rest (set opened)
      | .error violation =>
        { config := opened, error := some (.validation binding.name violation) }

/-- Lets the variables of the environment take effect on a configuration. -/
def overlay (environment : Environment) (config : Config) : Overlay :=
  overlayBindings environment bindings config

end Environment

end Locator
