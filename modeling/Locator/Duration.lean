/-!
# Durations

Spans of time in whole seconds and nanoseconds, as time limits are configured and measured.
`toNanos` is the view that comparisons go through.
-/

namespace Locator

/-- A span of time: whole seconds and the nanoseconds of one more. -/
structure Duration where
  seconds : UInt64
  nanos : Nat
  nanos_lt : nanos < 1000000000 := by omega
  deriving DecidableEq

namespace Duration

def ofSeconds (seconds : UInt64) : Duration where
  seconds
  nanos := 0

theorem nanos_ofMillis_lt (millis : UInt64) :
    millis.toNat % 1000 * 1000000 < 1000000000 := by
  have := Nat.mod_lt millis.toNat (y := 1000) (by decide)
  omega

def ofMillis (millis : UInt64) : Duration where
  seconds := millis / 1000
  nanos := millis.toNat % 1000 * 1000000
  nanos_lt := nanos_ofMillis_lt millis

/-- The length of the span in nanoseconds. -/
def toNanos (span : Duration) : Nat :=
  span.seconds.toNat * 1000000000 + span.nanos

/-- Whole milliseconds. -/
def toMillis (span : Duration) : Nat :=
  span.seconds.toNat * 1000 + span.nanos / 1000000

/-- Whole milliseconds as a 64-bit number, the largest one when there are more. -/
def clampedMillis (span : Duration) : UInt64 :=
  UInt64.ofNat (min span.toMillis (UInt64.size - 1))

theorem toNat_clampedMillis (span : Duration) :
    span.clampedMillis.toNat = min span.toMillis (UInt64.size - 1) :=
  UInt64.toNat_ofNat_of_lt' (Nat.lt_of_le_of_lt (Nat.min_le_right _ _) (by decide))

/-! ## Text -/

/-- The digits of `part / unit` behind a decimal point, without zeros at the end. -/
def fractionDigits (part width : Nat) : List Char :=
  let digits := Nat.toDigits 10 part
  let padded := List.replicate (width - digits.length) '0' ++ digits
  (padded.reverse.dropWhile (· == '0')).reverse

/-- A whole number and the decimal digits of a fraction with `width` places. -/
def decimal (whole part width : Nat) : String :=
  match fractionDigits part width with
  | [] => toString whole
  | digits => toString whole ++ "." ++ String.ofList digits

/-- The span in the largest of the units s, ms, µs and ns that leaves a whole part, with as many
decimals as it needs. -/
def text (span : Duration) : String :=
  if span.seconds ≠ 0 then decimal span.seconds.toNat span.nanos 9 ++ "s"
  else if span.nanos ≥ 1000000 then
    decimal (span.nanos / 1000000) (span.nanos % 1000000) 6 ++ "ms"
  else if span.nanos ≥ 1000 then decimal (span.nanos / 1000) (span.nanos % 1000) 3 ++ "µs"
  else toString span.nanos ++ "ns"

end Duration

end Locator
