import Mathlib

/-!
# Go Instants and Durations

The part of Go's `time` package that the runtime relies on. An instant (`time.Time`) is
an integer: the nanoseconds since Go's zero time (January 1, year 1, UTC). A `Duration`
is a signed 64-bit count of nanoseconds, and `sub` saturates at the ends of that range.

The fact that users of this module need is `le_sub_iff`: comparing a saturated
difference with a positive duration is the same as comparing the exact difference.
-/

namespace ServiceRuntime.GoTime

/-! ## Durations -/

/-- `time.Duration`: nanoseconds that fit a signed 64-bit integer. -/
structure Duration where
  ns : Int
  lower : -2 ^ 63 ≤ ns
  upper : ns < 2 ^ 63
  deriving DecidableEq

namespace Duration

/-- The longest duration, about 292 years. -/
def max : Duration := ⟨2 ^ 63 - 1, by decide, by decide⟩

def min : Duration := ⟨-2 ^ 63, by decide, by decide⟩

def second : Duration := ⟨1000000000, by decide, by decide⟩

def saturate (n : Int) : Duration :=
  if hlo : n < -2 ^ 63 then min
  else if hhi : 2 ^ 63 ≤ n then max
  else ⟨n, by omega, by omega⟩

theorem saturate_ns (n : Int) : (saturate n).ns = Max.max (-2 ^ 63) (Min.min n (2 ^ 63 - 1)) := by
  unfold saturate min max
  split
  · dsimp only
    omega
  · split
    · dsimp only
      omega
    · dsimp only
      omega

theorem le_saturate_iff {d : Duration} (hd : 0 < d.ns) (n : Int) :
    d.ns ≤ (saturate n).ns ↔ d.ns ≤ n := by
  have hhi := d.upper
  rw [saturate_ns]
  omega

end Duration

/-! ## Instants -/

/-- The zero `time.Time`. -/
def zeroTime : Int := 0

def isZero (t : Int) : Bool := t == zeroTime

/-- `t.Sub(u)`, saturating. -/
def sub (t u : Int) : Duration := Duration.saturate (t - u)

/-- `t.Add(d)`. -/
def add (t : Int) (d : Duration) : Int := t + d.ns

/-- The instant 1970-01-01T00:00:00Z, from which Unix times count. -/
def unixEpoch : Int := 62135596800 * 1000000000

def unixMilli (t : Int) : Int := (t - unixEpoch) / 1000000

/-- `time.UnixMilli(ms)`. -/
def ofUnixMilli (ms : Int) : Int := unixEpoch + ms * 1000000

theorem unixMilli_ofUnixMilli (ms : Int) : unixMilli (ofUnixMilli ms) = ms := by
  unfold unixMilli ofUnixMilli
  omega

theorem le_sub_iff {d : Duration} (hd : 0 < d.ns) (t u : Int) :
    d.ns ≤ (sub t u).ns ↔ add u d ≤ t := by
  rw [sub, Duration.le_saturate_iff hd, add]
  omega

end ServiceRuntime.GoTime
