import Locator.Proofs.Config.Legality
import Locator.Proofs.Config.Leaves

/-!
# Settings written back

Settings can be written as a configuration that leaves nothing open. It counts times in whole units,
so what it amounts to are the settings with their times rounded down. Settings that come from a
configuration have nothing to round, and such a configuration is as good as the one that they come
from: alone, in the eyes of validation, and on top of any other.

* `resolved_ofSettings`: what settings amount to once they are written back
* `resolved_ofSettings_atop`: nothing below shows through them
* `resolved_ofSettings_eq_self_iff`: which settings come back as they were
* `settings_written_back`: all of it
-/

namespace Locator.Config

/-- The times are rounded down, and everything else comes back. -/
theorem resolved_ofSettings (settings : Settings) :
    (ofSettings settings).resolved = { settings with
      cacheTtl := .ofSeconds settings.cacheTtl.seconds
      readTimeout := .ofMillis settings.readTimeout.clampedMillis } := rfl

/-- All leaves are set, so nothing below makes a difference. -/
theorem resolved_ofSettings_atop (settings : Settings) (lower : Config) :
    ((ofSettings settings).atop lower).resolved = (ofSettings settings).resolved := by
  have hset : ∀ leaf, ((ofSettings settings).value? leaf).isSome = true := by
    intro leaf
    cases leaf <;> rfl
  have hvalue : ((ofSettings settings).atop lower).value? = (ofSettings settings).value? := by
    funext leaf
    rw [value?_atop, Option.or_of_isSome (hset leaf)]
  rw [resolved_eq, resolved_eq, hvalue]

/-- Configurations count in whole units. -/
theorem resolved_ofSettings_resolved (config : Config) :
    (ofSettings config.resolved).resolved = config.resolved := by
  rw [resolved_ofSettings]
  unfold resolved
  simp only [Duration.clampedMillis_ofMillis, Duration.ofSeconds]

/-- Only times that are not counted in whole units, or not in 64 bits, do not come back. -/
theorem resolved_ofSettings_eq_self_iff {settings : Settings} :
    (ofSettings settings).resolved = settings ↔
      1000000000 ∣ settings.cacheTtl.toNanos ∧
      1000000 ∣ settings.readTimeout.toNanos ∧ settings.readTimeout.toMillis < UInt64.size := by
  rw [← Duration.ofSeconds_seconds_eq_self_iff, ← Duration.ofMillis_clampedMillis_eq_self_iff,
    resolved_ofSettings]
  constructor
  · intro h
    exact ⟨congrArg Settings.cacheTtl h, congrArg Settings.readTimeout h⟩
  · rintro ⟨httl, htimeout⟩
    rw [httl, htimeout]

/-- The settings of a configuration survive being written back: they come to the same settings, are
judged in the same way, and hold on top of any other configuration. Any settings that are written
back never come to longer times, and they come back as they were exactly when the time to live is a
whole number of seconds and the time limit one of milliseconds that 64 bits can hold. -/
theorem settings_written_back :
    (∀ config : Config,
      (ofSettings config.resolved).resolved = config.resolved ∧
      (ofSettings config.resolved).validate = config.validate ∧
      ∀ lower : Config, ((ofSettings config.resolved).atop lower).resolved = config.resolved) ∧
    ∀ settings : Settings,
      (ofSettings settings).resolved.cacheTtl.toNanos ≤ settings.cacheTtl.toNanos ∧
      (ofSettings settings).resolved.readTimeout.toNanos ≤ settings.readTimeout.toNanos ∧
      ((ofSettings settings).resolved = settings ↔
        1000000000 ∣ settings.cacheTtl.toNanos ∧
        1000000 ∣ settings.readTimeout.toNanos ∧
        settings.readTimeout.toMillis < UInt64.size) := by
  constructor
  · intro config
    have hresolved := resolved_ofSettings_resolved config
    refine ⟨hresolved, validate_eq_of_resolved_eq hresolved, fun lower => ?_⟩
    rw [resolved_ofSettings_atop, hresolved]
  · intro settings
    exact ⟨settings.cacheTtl.toNanos_ofSeconds_seconds_le,
      settings.readTimeout.toNanos_ofMillis_clampedMillis_le, resolved_ofSettings_eq_self_iff⟩

/-- A second and a half is counted as one second. -/
example :
    (ofSettings { ({} : Config).resolved with
      cacheTtl := { seconds := 1, nanos := 500000000 } }).resolved.cacheTtl = .ofSeconds 1 :=
  rfl

end Locator.Config
