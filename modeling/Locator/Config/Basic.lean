import Locator.Duration

/-!
# Configurations and settings

A *configuration* says something about some of the settings and leaves the rest open; a section can
be there without saying anything. *Settings* say everything. `Config.resolved` fills in the
defaults, `Config.ofSettings` writes settings back, in whole seconds and milliseconds.
-/

namespace Locator

structure CacheSection where
  ttlSeconds : Option UInt64 := none
  deriving DecidableEq, Repr

structure NetworkSection where
  readTimeoutMillis : Option UInt64 := none
  trustSelfSigned : Option Bool := none
  deriving DecidableEq, Repr

structure ExtensionSection where
  legacy : Option String := none
  current : Option String := none
  deriving DecidableEq, Repr

/-- What one source, or several together, say about the settings. -/
structure Config where
  cache : Option CacheSection := none
  network : Option NetworkSection := none
  extensions : Option ExtensionSection := none
  deriving DecidableEq, Repr

/-- A value for everything that can be set. -/
structure Settings where
  cacheTtl : Duration
  readTimeout : Duration
  trustSelfSigned : Bool
  legacyExtension : String
  currentExtension : String
  deriving DecidableEq

namespace Config

/-! ## The values that a configuration sets -/

def ttlSeconds? (config : Config) : Option UInt64 :=
  config.cache.bind (·.ttlSeconds)

def readTimeoutMillis? (config : Config) : Option UInt64 :=
  config.network.bind (·.readTimeoutMillis)

def trustSelfSigned? (config : Config) : Option Bool :=
  config.network.bind (·.trustSelfSigned)

def legacyExtension? (config : Config) : Option String :=
  config.extensions.bind (·.legacy)

def currentExtension? (config : Config) : Option String :=
  config.extensions.bind (·.current)

/-! ## Defaults -/

def defaultTtlSeconds : UInt64 := 60
def defaultReadTimeoutMillis : UInt64 := 10000
def defaultLegacyExtension : String := "opi"
def defaultCurrentExtension : String := "bob"

/-- The settings, with the default for whatever the configuration leaves open. -/
def resolved (config : Config) : Settings where
  cacheTtl := .ofSeconds (config.ttlSeconds?.getD defaultTtlSeconds)
  readTimeout := .ofMillis (config.readTimeoutMillis?.getD defaultReadTimeoutMillis)
  trustSelfSigned := config.trustSelfSigned?.getD false
  legacyExtension := config.legacyExtension?.getD defaultLegacyExtension
  currentExtension := config.currentExtension?.getD defaultCurrentExtension

/-- The configuration that says everything the settings say, as far as whole seconds, and
milliseconds in 64 bits, can. -/
def ofSettings (settings : Settings) : Config where
  cache := some { ttlSeconds := some settings.cacheTtl.seconds }
  network := some {
    readTimeoutMillis := some settings.readTimeout.clampedMillis
    trustSelfSigned := some settings.trustSelfSigned }
  extensions := some {
    legacy := some settings.legacyExtension
    current := some settings.currentExtension }

end Config

end Locator
