import Mathlib.Algebra.Group.Int.Defs
import Mathlib.Order.Basic

/-!
# Instants and durations

`time.Time` is read in UTC throughout the program, which strips the monotonic reading, so an
instant is the number of nanoseconds since the Unix epoch and nothing else. `time.Duration` is an
int64 count of nanoseconds, and `Time.Sub` saturates at its bounds. Comparing a saturated
difference with a positive duration compares the exact difference (`Time.sub_lt_iff`).
-/

namespace TinyProbe

/-- `time.Time`, in nanoseconds since the Unix epoch. -/
@[ext] structure Time where
  ns : Int
deriving DecidableEq, Repr

/-- `time.Duration`. -/
abbrev Duration := Int64

namespace Time

/-- `time.Time{}`: the first instant of year 1. -/
def zero : Time := ⟨-62135596800 * 1000000000⟩

/-- `time.Second`. -/
def second : Duration := 1000000000

/-- `time.Minute`, as a number of nanoseconds. -/
def minute : Int := 60 * 1000000000

/-- `t.Before(u)`. -/
def before (t u : Time) : Bool := t.ns < u.ns

/-- `t.Sub(u)`: the difference, saturated at the bounds of int64. -/
def sub (t u : Time) : Duration :=
  if t.ns - u.ns < -2 ^ 63 then Int64.minValue
  else if 2 ^ 63 ≤ t.ns - u.ns then Int64.maxValue
  else Int64.ofInt (t.ns - u.ns)

/-- `time.Duration(n) * time.Second`, in int64 arithmetic. -/
def seconds (n : Int) : Duration := Int64.ofInt n * second

/-- `t.Add(d)`. -/
def add (t : Time) (d : Duration) : Time := ⟨t.ns + d.toInt⟩

/-- `t.Truncate(time.Minute)`. The zero instant lies on a minute, so the multiples are those of
the epoch. -/
def truncateMinute (t : Time) : Time := ⟨t.ns - t.ns % minute⟩

/-- `t.Unix()`. -/
def unix (t : Time) : Int := t.ns / 1000000000

/-- `t.UnixMilli()`. -/
def unixMilli (t : Time) : Int := t.ns / 1000000

/-- `time.Unix(n, 0)`. -/
def ofUnix (n : Int) : Time := ⟨n * 1000000000⟩

@[simp] theorem before_iff {t u : Time} : t.before u = true ↔ t.ns < u.ns :=
  decide_eq_true_iff

/-- A saturated difference is below a positive duration exactly when the exact one is. -/
theorem sub_lt_iff {t u : Time} {d : Duration} (hd : 0 < d) :
    t.sub u < d ↔ t.ns - u.ns < d.toInt := by
  have hpos : 0 < d.toInt := by rwa [Int64.lt_iff_toInt_lt, Int64.toInt_zero] at hd
  have hlt : d.toInt < 2 ^ 63 := Int64.toInt_lt d
  rw [Int64.lt_iff_toInt_lt]
  unfold sub
  split
  next h => rw [Int64.toInt_minValue]; omega
  next h =>
    split
    next h' => rw [Int64.toInt_maxValue]; omega
    next h' => rw [Int64.toInt_ofInt_of_le (by omega) (by omega)]

/-- A saturated difference reaches a positive duration exactly when the exact one does. -/
theorem le_sub_iff {t u : Time} {d : Duration} (hd : 0 < d) :
    d ≤ t.sub u ↔ d.toInt ≤ t.ns - u.ns := by
  rw [← Int64.not_lt, sub_lt_iff hd, Int.not_lt]

/-- In the range the handler admits, a number of seconds is not wrapped. -/
theorem toInt_seconds {n : Int} (h0 : 0 ≤ n) (h1 : n ≤ 604800) :
    (seconds n).toInt = n * 1000000000 := by
  have hs : second.toInt = 1000000000 := by decide
  have hn : (Int64.ofInt n).toInt = n := Int64.toInt_ofInt_of_le (by omega) (by omega)
  rw [seconds, Int64.toInt_mul, hs, hn, Int.bmod_eq_of_le (by omega) (by omega)]

/-- A positive number of seconds in that range is a positive duration. -/
theorem seconds_pos {n : Int} (h0 : 0 < n) (h1 : n ≤ 604800) : 0 < seconds n := by
  rw [Int64.lt_iff_toInt_lt, toInt_seconds (Int.le_of_lt h0) h1, Int64.toInt_zero]
  omega

@[simp] theorem seconds_zero : seconds 0 = 0 := by decide

end Time

end TinyProbe
