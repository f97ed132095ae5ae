import Locator.Duration

/-!
# Durations in nanoseconds

A duration is known by its length in nanoseconds. Building one from a count multiplies, counting its
whole seconds or milliseconds divides, so a duration that is counted and built again is rounded
down. It comes back as it was when it is a whole number of units; a number of milliseconds has to
fit into 64 bits besides.

* `toNanos_injective`: durations of the same length are the same
* `toNanos_ofSeconds`, `toNanos_ofMillis`: built from a count
* `toNat_seconds`, `toMillis_eq`: counted
* `ofSeconds_seconds_eq_self_iff`, `ofMillis_clampedMillis_eq_self_iff`: counted and built again
-/

namespace Locator.Duration

variable {span other : Duration}

theorem toNanos_injective (h : span.toNanos = other.toNanos) : span = other := by
  obtain ⟨seconds, nanos, hlt⟩ := span
  obtain ⟨seconds', nanos', hlt'⟩ := other
  simp only [toNanos] at h
  -- the nanoseconds are less than one more second, so they cannot make up for a different second
  have hseconds : seconds = seconds' := UInt64.toNat_inj.1 (by omega)
  subst hseconds
  have hnanos : nanos = nanos' := by omega
  subst hnanos
  rfl

/-! ## Built from a count -/

@[simp] theorem toNanos_ofSeconds (seconds : UInt64) :
    (ofSeconds seconds).toNanos = seconds.toNat * 1000000000 := by
  simp only [toNanos, ofSeconds, Nat.add_zero]

@[simp] theorem toNanos_ofMillis (millis : UInt64) :
    (ofMillis millis).toNanos = millis.toNat * 1000000 := by
  have hdiv : (millis / 1000).toNat = millis.toNat / 1000 := UInt64.toNat_div millis 1000
  simp only [toNanos, ofMillis, hdiv]
  omega

/-! ## Counted -/

theorem toNat_seconds (span : Duration) : span.seconds.toNat = span.toNanos / 1000000000 := by
  have hlt := span.nanos_lt
  simp only [toNanos]
  omega

theorem toMillis_eq (span : Duration) : span.toMillis = span.toNanos / 1000000 := by
  simp only [toMillis, toNanos]
  omega

theorem clampedMillis_ofMillis (millis : UInt64) : (ofMillis millis).clampedMillis = millis := by
  have hlt := millis.toNat_lt
  apply UInt64.toNat_inj.1
  rw [toNat_clampedMillis, toMillis_eq, toNanos_ofMillis]
  simp only [UInt64.size]
  omega

/-! ## Counted and built again -/

theorem toNanos_ofSeconds_seconds_le (span : Duration) :
    (ofSeconds span.seconds).toNanos ≤ span.toNanos := by
  rw [toNanos_ofSeconds, toNat_seconds]
  exact Nat.div_mul_le_self span.toNanos 1000000000

theorem toNanos_ofMillis_clampedMillis_le (span : Duration) :
    (ofMillis span.clampedMillis).toNanos ≤ span.toNanos := by
  rw [toNanos_ofMillis, toNat_clampedMillis, toMillis_eq]
  calc min (span.toNanos / 1000000) (UInt64.size - 1) * 1000000
    _ ≤ span.toNanos / 1000000 * 1000000 := Nat.mul_le_mul_right _ (Nat.min_le_left _ _)
    _ ≤ span.toNanos := Nat.div_mul_le_self _ _

theorem ofSeconds_seconds_eq_self_iff :
    ofSeconds span.seconds = span ↔ 1000000000 ∣ span.toNanos := by
  rw [Nat.dvd_iff_div_mul_eq, ← toNat_seconds, ← toNanos_ofSeconds]
  exact ⟨congrArg toNanos, toNanos_injective⟩

theorem ofMillis_clampedMillis_eq_self_iff :
    ofMillis span.clampedMillis = span ↔
      1000000 ∣ span.toNanos ∧ span.toMillis < UInt64.size := by
  have hnanos : (ofMillis span.clampedMillis).toNanos =
      min span.toMillis (UInt64.size - 1) * 1000000 := by
    rw [toNanos_ofMillis, toNat_clampedMillis]
  have hmillis := toMillis_eq span
  constructor
  · intro h
    rw [h] at hnanos
    simp only [UInt64.size] at hnanos ⊢
    omega
  · rintro ⟨hwhole, hfits⟩
    apply toNanos_injective
    simp only [UInt64.size] at hnanos hfits
    omega

end Locator.Duration
