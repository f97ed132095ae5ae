import Locator.Config.Basic

/-!
# Merging configurations

Laying one configuration over another: what the upper one sets wins, and the lower one shows
through where the upper one is silent.
-/

namespace Locator

namespace CacheSection

def atop (upper lower : CacheSection) : CacheSection where
  ttlSeconds := upper.ttlSeconds.or lower.ttlSeconds

end CacheSection

namespace NetworkSection

def atop (upper lower : NetworkSection) : NetworkSection where
  readTimeoutMillis := upper.readTimeoutMillis.or lower.readTimeoutMillis
  trustSelfSigned := upper.trustSelfSigned.or lower.trustSelfSigned

end NetworkSection

namespace ExtensionSection

def atop (upper lower : ExtensionSection) : ExtensionSection where
  legacy := upper.legacy.or lower.legacy
  current := upper.current.or lower.current

end ExtensionSection

namespace Config

/-- Lays a section over another; where the lower one is missing, over one that says nothing. -/
def sectionAtop {σ : Type} (atop : σ → σ → σ) (silent : σ) : Option σ → Option σ → Option σ
  | none, lower => lower
  | some upper, lower => some (atop upper (lower.getD silent))

/-- Lays `upper` over `lower`, section by section. -/
def atop (upper lower : Config) : Config where
  cache := sectionAtop CacheSection.atop {} upper.cache lower.cache
  network := sectionAtop NetworkSection.atop {} upper.network lower.network
  extensions := sectionAtop ExtensionSection.atop {} upper.extensions lower.extensions

/-- Lays configurations over each other, the first one at the bottom. -/
def merge (layers : List Config) : Config :=
  layers.foldl (fun lower upper => upper.atop lower) {}

end Config

end Locator
