import Locator.Config.Basic
import Locator.Error
import Locator.Text.Blank

/-!
# Validating configurations

Numbers must not be zero, extensions must be usable at the end of a file name, and the two
extensions must differ. `Config.validate` reports the first violation in the order of the fields.
-/

namespace Locator.Config

/-- What is wrong with an extension, blanks around it aside. -/
def extensionViolation? (extension : String) : Option Violation :=
  match Text.trim extension.toList with
  | [] => some .blankExtension
  | '.' :: bare => some (.leadingDot (String.ofList bare))
  | chars => if chars.contains '/' || chars.contains '\\' then some .pathSeparator else none

def validateCache (cache : CacheSection) : Except Error Unit :=
  if cache.ttlSeconds = some 0 then .error (.validation "cache.ttl_seconds" .zeroTtl) else .ok ()

def validateNetwork (network : NetworkSection) : Except Error Unit :=
  if network.readTimeoutMillis = some 0 then
    .error (.validation "network.read_timeout_ms" .zeroTimeout)
  else .ok ()

def validateExtension (field : String) (extension : Option String) : Except Error Unit :=
  match extension.bind extensionViolation? with
  | some violation => .error (.validation field violation)
  | none => .ok ()

/-- Where an extension is open, its default takes part in the comparison. -/
def validateExtensions (extensions : ExtensionSection) : Except Error Unit := do
  validateExtension "extensions.legacy" extensions.legacy
  validateExtension "extensions.current" extensions.current
  let legacy := extensions.legacy.getD defaultLegacyExtension
  let current := extensions.current.getD defaultCurrentExtension
  if legacy = current then throw (.validation "extensions" (.sameExtensions legacy))

/-- Checks the sections that are there. -/
def validate (config : Config) : Except Error Unit := do
  if let some cache := config.cache then validateCache cache
  if let some network := config.network then validateNetwork network
  if let some extensions := config.extensions then validateExtensions extensions

end Locator.Config
