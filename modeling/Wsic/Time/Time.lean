import Mathlib.Tactic.NormNum
import Wsic.Lib.CMemory

/-!
# Elapsed time

Model of `time_getTimeSinceStart` and `time_getFormattedElapsedTime`, `src/time/time.c:30–73`,
which `logging_logToFile`, `src/logging/logging.c:60–61`, calls one after the other. The monotonic
clock is read as a `struct timespec`, and the result is in unsigned numbers of 64 bits. Differences
of `long`s are exact.
-/

namespace Wsic.Time

/-- `struct timespec`. -/
structure Timespec where
  tvSec : Int
  tvNsec : Int
deriving DecidableEq

/-- `time_getTimeSinceStart`, `time.c:52`, with the time of `time_reset` and that of the call; an
output is requested, or null. -/
def getTimeSinceStart (timeStart now : Timespec) (nanoseconds seconds : Bool) :
    Bool × Option UInt64 × Option UInt64 :=
  if !nanoseconds && seconds then
    -- Return time since start in seconds
    (true, none, some (UInt64.ofInt (now.tvSec - timeStart.tvSec)))
  else if nanoseconds && !seconds then
    -- Return time since start in nanoseconds
    (true, some (UInt64.ofInt ((now.tvNsec + now.tvSec * 1000000000) -
      (timeStart.tvNsec + timeStart.tvSec * 1000000000))), none)
  else if nanoseconds && seconds then
    (true, some (UInt64.ofInt (now.tvNsec - timeStart.tvNsec)),
      some (UInt64.ofInt (now.tvSec - timeStart.tvSec)))
  else (false, none, none)

/-- The outputs of `time_getFormattedElapsedTime`. -/
structure FormattedTime where
  nanoseconds : UInt64
  milliseconds : UInt64
  seconds : UInt64
  minutes : UInt64
  hours : UInt64
  days : UInt64
deriving DecidableEq

/-- `time_getFormattedElapsedTime`, `time.c:30`, with the units of `time.h:10–22`. An output that is
null is not written. -/
def getFormattedElapsedTime (nanoseconds seconds : UInt64) : FormattedTime where
  nanoseconds := (nanoseconds / 10000) % 100
  milliseconds := (nanoseconds / 1000000) % 1000
  seconds := seconds % 60
  minutes := (seconds / 60) % 60
  hours := (seconds / 3600) % 24
  days := seconds / 86400

/-! ### Splitting -/

/-- Hours, minutes, seconds and milliseconds are in their ranges. -/
structure FormattedTime.InRange (formatted : FormattedTime) : Prop where
  milliseconds : formatted.milliseconds < 1000
  seconds : formatted.seconds < 60
  minutes : formatted.minutes < 60
  hours : formatted.hours < 24

/-- The days, hours, minutes, seconds and milliseconds together, in milliseconds. -/
def FormattedTime.total (formatted : FormattedTime) : ℕ :=
  (((formatted.days.toNat * 24 + formatted.hours.toNat) * 60 + formatted.minutes.toNat) * 60 +
    formatted.seconds.toNat) * 1000 + formatted.milliseconds.toNat

theorem inRange_getFormattedElapsedTime (nanoseconds seconds : UInt64) :
    (getFormattedElapsedTime nanoseconds seconds).InRange := by
  constructor <;>
    simp only [getFormattedElapsedTime, UInt64.lt_iff_toNat_lt, UInt64.toNat_mod] <;>
    exact Nat.mod_lt _ (by decide)

/-- The parts of a number of seconds add up to it again. -/
private theorem mixedRadix (n : ℕ) :
    ((n / 86400 * 24 + n / 3600 % 24) * 60 + n / 60 % 60) * 60 + n % 60 = n := by
  omega

/-- The parts add up to the whole milliseconds. -/
theorem total_getFormattedElapsedTime {nanoseconds : UInt64} (h : nanoseconds.toNat < 1000000000)
    (seconds : UInt64) : (getFormattedElapsedTime nanoseconds seconds).total =
      (seconds.toNat * 1000000000 + nanoseconds.toNat) / 1000000 := by
  have hmilliseconds : nanoseconds.toNat / 1000000 % 1000 = nanoseconds.toNat / 1000000 :=
    Nat.mod_eq_of_lt (by omega)
  simp only [FormattedTime.total, getFormattedElapsedTime, UInt64.toNat_mod, UInt64.toNat_div,
    UInt64.reduceToNat]
  rw [mixedRadix, hmilliseconds]
  omega

/-! ### The time since the start -/

/-- A time as a number of nanoseconds. -/
def Timespec.total (time : Timespec) : Int := time.tvSec * 1000000000 + time.tvNsec

/-- The nanoseconds of a time are less than a second. -/
def Timespec.Normal (time : Timespec) : Prop := 0 ≤ time.tvNsec ∧ time.tvNsec < 1000000000

instance (time : Timespec) : Decidable time.Normal := inferInstanceAs (Decidable (_ ∧ _))

/-- The nanoseconds and seconds that are returned together are the time since the start, and the
formatted time is in its ranges and is this time in whole milliseconds. -/
def ReportsElapsed (timeStart now : Timespec) : Prop :=
  ∃ nanoseconds seconds,
    getTimeSinceStart timeStart now true true = (true, some nanoseconds, some seconds) ∧
      nanoseconds.toNat < 1000000000 ∧
      (seconds.toNat * 1000000000 + nanoseconds.toNat : Int) = now.total - timeStart.total ∧
      (getFormattedElapsedTime nanoseconds seconds).InRange ∧
      ((getFormattedElapsedTime nanoseconds seconds).total : Int) =
        (now.total - timeStart.total) / 1000000

theorem toNat_ofInt (x : Int) : ((UInt64.ofInt x).toNat : Int) = x % 2 ^ 64 := by
  have hnonneg : 0 ≤ x % 2 ^ 64 := Int.emod_nonneg _ (by decide)
  have hlt : x % 2 ^ 64 < 2 ^ 64 := Int.emod_lt_of_pos _ (by decide)
  rw [UInt64.ofInt, UInt64.toNat_ofNat']
  omega

/-- The elapsed time is reported correctly if and only if the nanoseconds of the second in which it
ends are not before those of the start. -/
theorem reportsElapsed_iff {timeStart now : Timespec} (hstart : timeStart.Normal)
    (hnow : now.Normal) (hle : timeStart.total ≤ now.total)
    (hrange : now.tvSec - timeStart.tvSec < 2 ^ 64) :
    ReportsElapsed timeStart now ↔ timeStart.tvNsec ≤ now.tvNsec := by
  obtain ⟨hstart0, hstart1⟩ := hstart
  obtain ⟨hnow0, hnow1⟩ := hnow
  have hnanoseconds := toNat_ofInt (now.tvNsec - timeStart.tvNsec)
  have hseconds := toNat_ofInt (now.tvSec - timeStart.tvSec)
  unfold Timespec.total at hle
  constructor
  · rintro ⟨nanoseconds, seconds, hget, hlt, -⟩
    by_contra hbefore
    cases hget
    -- The difference is negative and becomes a number next to `2^64`.
    have hwrapped : (now.tvNsec - timeStart.tvNsec) % 2 ^ 64 =
        now.tvNsec - timeStart.tvNsec + 2 ^ 64 := by omega
    omega
  · intro hnsec
    have hsec : 0 ≤ now.tvSec - timeStart.tvSec := by omega
    rw [Int.emod_eq_of_lt (by omega) (by omega)] at hnanoseconds
    rw [Int.emod_eq_of_lt hsec hrange] at hseconds
    have hlt : (UInt64.ofInt (now.tvNsec - timeStart.tvNsec)).toNat < 1000000000 := by omega
    have htotal : ((UInt64.ofInt (now.tvSec - timeStart.tvSec)).toNat * 1000000000 +
        (UInt64.ofInt (now.tvNsec - timeStart.tvNsec)).toNat : Int) =
          now.total - timeStart.total := by
      rw [hseconds, hnanoseconds, Timespec.total, Timespec.total]
      omega
    refine ⟨_, _, rfl, hlt, htotal, inRange_getFormattedElapsedTime _ _, ?_⟩
    rw [total_getFormattedElapsedTime hlt, ← htotal]
    omega

/-- Two seconds and a half. -/
theorem reportsElapsed_two_and_a_half : ReportsElapsed ⟨10, 250000000⟩ ⟨12, 750000000⟩ :=
  (reportsElapsed_iff (by decide) (by decide) (by decide) (by decide)).mpr (by decide)

/-- A tenth of a second over the end of a second is reported as one second and almost `2^64`
nanoseconds. -/
theorem next_second_not_reportsElapsed :
    ¬ ReportsElapsed ⟨10, 950000000⟩ ⟨11, 50000000⟩ := by
  rintro ⟨nanoseconds, seconds, hget, hlt, -⟩
  cases hget
  exact absurd hlt (by decide)

/-- The nanoseconds alone are the time since the start. -/
theorem getTimeSinceStart_nanoseconds {timeStart now : Timespec}
    (hle : timeStart.total ≤ now.total) (hrange : now.total - timeStart.total < 2 ^ 64) :
    ∃ nanoseconds, getTimeSinceStart timeStart now true false = (true, some nanoseconds, none) ∧
      (nanoseconds.toNat : Int) = now.total - timeStart.total := by
  refine ⟨_, rfl, ?_⟩
  unfold Timespec.total at hle hrange ⊢
  rw [toNat_ofInt]
  omega

end Wsic.Time
