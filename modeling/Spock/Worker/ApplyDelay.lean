import Mathlib

/-!
# Spock — the delay of a subscription

`spock_apply_main` turns the `apply_delay` of the subscription into milliseconds, and `handle_begin`
sleeps until the transaction is that old. Timestamps and offsets are `int64` microseconds; a result
that does not fit wraps around.

* **`handleBegin_delayed`** — it is not less than the commit timestamp and the delay.
-/

namespace Spock.ApplyDelay

/-- The value of an `int64` expression. -/
def int64 (x : Int) : Int := x.bmod (2 ^ 64)

theorem int64_eq {x : Int} (h : -2 ^ 63 ≤ x) (h' : x < 2 ^ 63) : int64 x = x :=
  Int.bmod_eq_of_le (by omega) (by omega)

/-! ## Units -/

structure Interval where
  time : Int
  day : Int
  month : Int

/-- `interval_to_timeoffset`, as it is compiled with `HAVE_INT64_TIMESTAMP`: `c.h` of every server
the extension is built for defines it. -/
def intervalToTimeoffset (interval : Interval) : Int :=
  let span := int64 (interval.time + int64 (int64 (interval.month * 30) * 86400000000))
  int64 (span + int64 (int64 (interval.day * 24) * 3600000000))

/-- The static variable `apply_delay`, in milliseconds. -/
def applyDelay (interval : Option Interval) : Int :=
  match interval with
  | some interval => (intervalToTimeoffset interval).tdiv 1000
  | none => 0

/-! ## `handle_begin` -/

/-- A finite `TimestampTz`: from `MIN_TIMESTAMP` to `END_TIMESTAMP`. -/
structure TimestampTz where
  usecs : Int
  min_le : -211813488000000000 ≤ usecs
  lt_end : usecs < 9223371331200000000

/-- The local clock while `handle_begin` runs. -/
structure LocalClock where
  /-- What `GetCurrentIntegerTimestamp` reads. -/
  current : TimestampTz
  /-- When `pg_usleep` returns. -/
  pgUsleep : Int → Int
  /-- It sleeps for at least the time it is asked for. -/
  le_pgUsleep : ∀ usec, current.usecs + usec ≤ pgUsleep usec

/-- `TimestampDifference`, as seconds and microseconds. -/
def timestampDifference (start stop : Int) : Int × Int :=
  let diff := int64 (stop - start)
  if diff ≤ 0 then (0, 0) else (diff.tdiv 1000000, diff.tmod 1000000)

/-- The local clock when `handle_begin` returns. -/
def handleBegin (applyDelay : Int) (commitTime : TimestampTz) (clock : LocalClock) : Int :=
  if applyDelay > 0 ∧ clock.current.usecs > commitTime.usecs then
    -- `TimestampTzPlusMilliseconds(current, -apply_delay)`
    let current := int64 (clock.current.usecs + int64 (int64 (-applyDelay) * 1000))
    let (sec, usec) := timestampDifference current commitTime.usecs
    clock.pgUsleep (int64 (usec + int64 (sec * 1000000)))
  else clock.current.usecs

/-! ## The delay -/

def Interval.usecs (interval : Interval) : Int :=
  interval.month * 2592000000000 + interval.day * 86400000000 + interval.time

theorem intervalToTimeoffset_eq {interval : Interval} (hmonth : 0 ≤ interval.month)
    (hday : 0 ≤ interval.day) (htime : 0 ≤ interval.time) (h : interval.usecs < 2 ^ 62) :
    intervalToTimeoffset interval = interval.usecs := by
  unfold Interval.usecs at h ⊢
  unfold intervalToTimeoffset
  rw [int64_eq (x := interval.month * 30) (by omega) (by omega),
    int64_eq (x := interval.day * 24) (by omega) (by omega),
    int64_eq (x := _ * 86400000000) (by omega) (by omega),
    int64_eq (x := _ * 3600000000) (by omega) (by omega),
    int64_eq (x := interval.time + _) (by omega) (by omega), int64_eq (by omega) (by omega)]
  omega

theorem sleep_eq {diff : Int} (h : 0 < diff) (h' : diff < 2 ^ 63) :
    int64 (diff.tmod 1000000 + int64 (diff.tdiv 1000000 * 1000000)) = diff := by
  rw [Int.tdiv_eq_ediv_of_nonneg h.le, Int.tmod_eq_emod_of_nonneg h.le,
    int64_eq (x := _ * 1000000) (by omega) (by omega), int64_eq (by omega) (by omega)]
  omega

theorem le_handleBegin {delay : Int} (hdelay : 0 < delay) (hrange : delay ≤ 2147483647)
    {commitTime : TimestampTz} {clock : LocalClock} (h : commitTime.usecs < clock.current.usecs) :
    commitTime.usecs + delay * 1000 ≤ handleBegin delay commitTime clock := by
  have hmin := clock.current.min_le
  have hend := clock.current.lt_end
  have hmin' := commitTime.min_le
  have hstart : int64 (clock.current.usecs + int64 (int64 (-delay) * 1000)) =
      clock.current.usecs - delay * 1000 := by
    rw [int64_eq (x := -delay) (by omega) (by omega),
      int64_eq (x := _ * 1000) (by omega) (by omega), int64_eq (by omega) (by omega)]
    omega
  rw [handleBegin, if_pos ⟨hdelay, h⟩, hstart]
  dsimp only [timestampDifference]
  generalize hdiff : int64 (commitTime.usecs - (clock.current.usecs - delay * 1000)) = diff
  have hsleep := clock.le_pgUsleep diff
  have hnow := clock.le_pgUsleep 0
  have hlt : diff < 2 ^ 63 := by
    rw [← hdiff]
    exact Int.bmod_lt (by decide)
  -- The difference wraps around only if the transaction is centuries older than the delay.
  have hcases : diff = commitTime.usecs - (clock.current.usecs - delay * 1000) ∨
      commitTime.usecs + delay * 1000 ≤ clock.current.usecs ∧ 0 < diff := by
    by_cases hfit : -2 ^ 63 ≤ commitTime.usecs - (clock.current.usecs - delay * 1000)
    · exact .inl (hdiff.symm.trans (int64_eq hfit (by omega)))
    · have hwrap : diff = commitTime.usecs - (clock.current.usecs - delay * 1000) + 2 ^ 64 := by
        rw [← hdiff, int64, ← Int.add_bmod_right]
        exact int64_eq (by omega) (by omega)
      omega
  by_cases hpos : diff ≤ 0
  · rw [if_pos hpos]
    have hzero : int64 (0 + int64 (0 * 1000000)) = 0 := by decide
    dsimp only
    rw [hzero]
    omega
  · rw [if_neg hpos]
    dsimp only
    rw [sleep_eq (by omega) hlt]
    omega

/-- **The delay is kept.** For every interval without negative parts, whose length in milliseconds
is an `int`, and every transaction that the local clock is ahead of, `handle_begin` returns when the
clock is at the commit timestamp plus the interval, less what is cut off below a millisecond. -/
theorem handleBegin_delayed (interval : Interval) (hmonth : 0 ≤ interval.month)
    (hday : 0 ≤ interval.day) (htime : 0 ≤ interval.time)
    (hrange : interval.usecs / 1000 ≤ 2147483647) (commitTime : TimestampTz) (clock : LocalClock)
    (h : commitTime.usecs < clock.current.usecs) :
    commitTime.usecs + interval.usecs <
      handleBegin (applyDelay (some interval)) commitTime clock + 1000 := by
  have hnonneg : 0 ≤ interval.usecs := by
    unfold Interval.usecs
    omega
  have hdelay : applyDelay (some interval) = interval.usecs / 1000 := by
    rw [applyDelay, intervalToTimeoffset_eq hmonth hday htime (by omega),
      Int.tdiv_eq_ediv_of_nonneg hnonneg]
  rw [hdelay]
  rcases (by omega : interval.usecs / 1000 = 0 ∨ 0 < interval.usecs / 1000) with hzero | hpos
  · rw [handleBegin, if_neg fun hdelayed => by omega]
    omega
  · have hle := le_handleBegin hpos hrange h
    omega

/-- A day and half a millisecond, for a transaction of one second ago. -/
theorem handleBegin_delayed_day :
    let commitTime : TimestampTz := ⟨800000000000000000, by decide, by decide⟩
    let clock : LocalClock := ⟨⟨800000000001000000, by decide, by decide⟩,
      fun usec => 800000000001000000 + usec, fun _ => le_rfl⟩
    handleBegin (applyDelay (some ⟨500, 1, 0⟩)) commitTime clock = 800000086400000000 ∧
      commitTime.usecs + (86400000000 + 500) <
        handleBegin (applyDelay (some ⟨500, 1, 0⟩)) commitTime clock + 1000 :=
  ⟨by decide, handleBegin_delayed ⟨500, 1, 0⟩ (by decide) (by decide) (by decide) (by decide) _ _
    (by decide)⟩

end Spock.ApplyDelay
