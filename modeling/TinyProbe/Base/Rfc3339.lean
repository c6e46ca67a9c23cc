import TinyProbe.Base.Time
import TinyProbe.Lib.Decimal

/-!
# Instants as text

`t.UTC().Format(time.RFC3339Nano)`: the proleptic Gregorian calendar, fields of fixed width, and a
fraction that loses its trailing zeros and, if nothing is left of it, its point. The text is ASCII,
so comparing it letter by letter is comparing its bytes.

In the years 0 to 9999 the text up to the seconds has a fixed length and is in chronological order
(`formatSecond_lt`). The fraction is not: it ends in `Z`, which is above the digits and the point.
Two instants within a second are in the wrong order exactly when the fraction of one begins with
that of the other (`format_lt_iff`).
-/

namespace TinyProbe

/-! ## The calendar -/

namespace Calendar

def isLeap (year : Int) : Bool := year % 4 = 0 ∧ (year % 100 ≠ 0 ∨ year % 400 = 0)

/-- The number of days from 1 January of year 1 to 1 January of a year. -/
def daysBeforeYear (year : Int) : Int :=
  365 * (year - 1) + (year - 1) / 4 - (year - 1) / 100 + (year - 1) / 400

/-- The year of a day, counted from 1 January of year 1, and the day within the year: whole cycles
of 400 years, then of 100 and of 4. The last cycle of 100 years and the last year of 4 have a day
more than the others. -/
def yearDay (day : Int) : Int × Nat :=
  let n400 := day / 146097
  let d := day % 146097
  let n100 := d / 36524 - d / 36524 / 4
  let d := d - 36524 * n100
  let n4 := d / 1461
  let d := d % 1461
  let n1 := d / 365 - d / 365 / 4
  (400 * n400 + 100 * n100 + 4 * n4 + n1 + 1, (d - 365 * n1).toNat)

/-- `daysBefore`: the days before each month of a year that is no leap year. -/
def daysBefore : List Nat := [0, 31, 59, 90, 120, 151, 181, 212, 243, 273, 304, 334, 365]

/-- The month and the day of the month. -/
def monthDay (leap : Bool) (yday : Nat) : Nat × Nat :=
  if leap && yday == 59 then (2, 29)
  else
    let day := if leap && decide (59 < yday) then yday - 1 else yday
    -- every month has 31 days at most
    let month := day / 31
    let stop := daysBefore.getD (month + 1) 0
    if stop ≤ day then (month + 2, day - stop + 1)
    else (month + 1, day - daysBefore.getD month 0 + 1)

theorem toNat_isLeap (year : Int) :
    (isLeap year).toNat = if year % 4 = 0 ∧ (year % 100 ≠ 0 ∨ year % 400 = 0) then 1 else 0 := by
  unfold isLeap
  split
  next h => rw [decide_eq_true h, Bool.toNat_true]
  next h => rw [decide_eq_false h, Bool.toNat_false]

theorem daysBeforeYear_succ (year : Int) :
    daysBeforeYear (year + 1) = daysBeforeYear year + 365 + (isLeap year).toNat := by
  rw [toNat_isLeap]
  unfold daysBeforeYear
  split
  next h => omega
  next h => omega

/-- The leap days before a year, by its cycles. -/
theorem daysBeforeYear_cycles {n400 n100 n4 n1 : Int} (h100 : 0 ≤ n100 ∧ n100 ≤ 3)
    (h4 : 0 ≤ n4 ∧ n4 ≤ 24) (h1 : 0 ≤ n1 ∧ n1 ≤ 3) :
    daysBeforeYear (400 * n400 + 100 * n100 + 4 * n4 + n1 + 1) =
      146097 * n400 + 36524 * n100 + 1461 * n4 + 365 * n1 := by
  have hq4 : (400 * n400 + 100 * n100 + 4 * n4 + n1) / 4 = 100 * n400 + 25 * n100 + n4 := by omega
  have hq100 : (400 * n400 + 100 * n100 + 4 * n4 + n1) / 100 = 4 * n400 + n100 := by omega
  have hq400 : (400 * n400 + 100 * n100 + 4 * n4 + n1) / 400 = n400 := by omega
  rw [daysBeforeYear, Int.add_sub_cancel, hq4, hq100, hq400]
  omega

/-- A leap year is the last of four, and not the last of a hundred unless the last of 400. -/
theorem isLeap_cycles {n400 n100 n4 n1 : Int} (h100 : 0 ≤ n100 ∧ n100 ≤ 3)
    (h4 : 0 ≤ n4 ∧ n4 ≤ 24) (h1 : 0 ≤ n1 ∧ n1 ≤ 3) :
    isLeap (400 * n400 + 100 * n100 + 4 * n4 + n1 + 1) =
      decide (n1 = 3 ∧ (n4 ≠ 24 ∨ n100 = 3)) := by
  unfold isLeap
  congr 1
  refine propext ⟨fun h => ?_, fun h => ?_⟩
  · omega
  · omega

/-- **A day is a day of its year.** -/
theorem yearDay_spec (day : Int) :
    daysBeforeYear (yearDay day).1 + (yearDay day).2 = day ∧
      (yearDay day).2 < 365 + (isLeap (yearDay day).1).toNat := by
  unfold yearDay
  dsimp only
  -- a cycle of a hundred years
  generalize hd : day % 146097 = d
  generalize hn100 : d / 36524 - d / 36524 / 4 = n100
  have h100 : 0 ≤ n100 ∧ n100 ≤ 3 ∧ 0 ≤ d - 36524 * n100 ∧ d - 36524 * n100 ≤ 36524 ∧
      (d - 36524 * n100 = 36524 → n100 = 3) := by omega
  generalize hd100 : d - 36524 * n100 = d100 at h100
  -- four years
  generalize hn4 : d100 / 1461 = n4
  generalize hd4 : d100 % 1461 = d4
  have h4 : 0 ≤ n4 ∧ n4 ≤ 24 ∧ 0 ≤ d4 ∧ d4 ≤ 1460 := by omega
  -- a year
  generalize hn1 : d4 / 365 - d4 / 365 / 4 = n1
  have h1 : 0 ≤ n1 ∧ n1 ≤ 3 ∧ 0 ≤ d4 - 365 * n1 ∧ d4 - 365 * n1 ≤ 365 ∧
      (d4 - 365 * n1 = 365 → n1 = 3) := by omega
  rw [daysBeforeYear_cycles ⟨h100.1, h100.2.1⟩ ⟨h4.1, h4.2.1⟩ ⟨h1.1, h1.2.1⟩,
    isLeap_cycles ⟨h100.1, h100.2.1⟩ ⟨h4.1, h4.2.1⟩ ⟨h1.1, h1.2.1⟩]
  constructor
  · omega
  · by_cases hleap : n1 = 3 ∧ (n4 ≠ 24 ∨ n100 = 3)
    · rw [decide_eq_true hleap, Bool.toNat_true]
      omega
    · rw [decide_eq_false hleap, Bool.toNat_false]
      omega

/-- Nothing in a year is before something in an earlier one. -/
theorem daysBeforeYear_le {year year' : Int} (h : year < year') :
    daysBeforeYear year + 365 + (isLeap year).toNat ≤ daysBeforeYear year' := by
  rw [← daysBeforeYear_succ]
  unfold daysBeforeYear
  omega

/-- Month and day as one number, which orders them. -/
def monthDayCode (leap : Bool) (yday : Nat) : Nat :=
  (monthDay leap yday).1 * 100 + (monthDay leap yday).2

theorem monthDay_table : ∀ leap : Bool, ((List.range 366).all fun i =>
    Nat.blt (monthDay leap i).1 100 && Nat.blt (monthDay leap i).2 100 &&
      (Nat.ble (364 + leap.toNat) i ||
        Nat.blt (monthDayCode leap i) (monthDayCode leap (i + 1)))) = true := by
  decide +kernel

/-- Months and days have two digits, and go up from each day of the year to the next. -/
theorem monthDay_spec (leap : Bool) {i : Nat} (hi : i < 365 + leap.toNat) :
    ((monthDay leap i).1 < 10 ^ 2 ∧ (monthDay leap i).2 < 10 ^ 2) ∧
      (i + 1 < 365 + leap.toNat → monthDayCode leap i < monthDayCode leap (i + 1)) := by
  have hle := Bool.toNat_le leap
  have hrow := List.all_eq_true.mp (monthDay_table leap) i (List.mem_range.mpr (by omega))
  simp only [Bool.and_eq_true, Bool.or_eq_true, Nat.blt_eq, Nat.ble_eq] at hrow
  obtain ⟨⟨hmonth, hday⟩, hnext⟩ := hrow
  exact ⟨⟨hmonth, hday⟩, fun h => hnext.resolve_left (by omega)⟩

/-- The months and days of a year are in order. -/
theorem monthDay_lt (leap : Bool) {i j : Nat} (hij : i < j) (hj : j < 365 + leap.toNat) :
    (monthDay leap i).1 < (monthDay leap j).1 ∨
      (monthDay leap i).1 = (monthDay leap j).1 ∧ (monthDay leap i).2 < (monthDay leap j).2 := by
  have hcode : monthDayCode leap i < monthDayCode leap j := by
    induction j, hij using Nat.le_induction with
    | base => exact (monthDay_spec leap (by omega)).2 hj
    | succ j _ ih => exact Nat.lt_trans (ih (by omega)) ((monthDay_spec leap (by omega)).2 hj)
  have hi := (monthDay_spec leap (Nat.lt_trans hij hj)).1.2
  have hj := (monthDay_spec leap hj).1.2
  unfold monthDayCode at hcode
  omega

example : (yearDay 719162, monthDay (isLeap 1970) 0) = ((1970, 0), (1, 1)) := by decide

end Calendar

/-! ## The text -/

namespace Rfc3339

open Calendar Decimal

/-- `appendInt`. -/
def appendInt (x : Int) (width : Nat) : List Char :=
  (if x < 0 then ['-'] else []) ++
    if x.natAbs < 10 ^ width then pad width x.natAbs else Nat.toDigits 10 x.natAbs

/-- `2006-01-02`, for a day counted from 1 January of year 1. -/
def dateText (day : Int) : List Char :=
  let (year, yday) := yearDay day
  let (month, dayOfMonth) := monthDay (isLeap year) yday
  appendInt year 4 ++ '-' :: (pad 2 month ++ '-' :: pad 2 dayOfMonth)

/-- `15:04:05`, for a second of the day. -/
def clockText (second : Nat) : List Char :=
  pad 2 (second / 3600) ++ ':' :: (pad 2 (second / 60 % 60) ++ ':' :: pad 2 (second % 60))

/-- `.999999999Z07:00` in UTC. -/
def suffix (fraction : List Char) : List Char :=
  match fraction with
  | [] => ['Z']
  | d :: ds => '.' :: d :: ds ++ ['Z']

section Fields

variable {s t : List Char}

theorem appendInt_of_nonneg {year : Int} (h : 0 ≤ year ∧ year ≤ 9999) :
    appendInt year 4 = pad 4 year.toNat := by
  have hneg : ¬ year < 0 := by omega
  have hfits : year.natAbs < 10 ^ 4 := by omega
  rw [appendInt, if_neg hneg, if_pos hfits, List.nil_append]
  congr 1
  omega

/-- A day of a year before 10000, in fields. -/
theorem dateText_eq {day : Int} (h : 0 ≤ (yearDay day).1 ∧ (yearDay day).1 ≤ 9999) :
    dateText day = pad 4 (yearDay day).1.toNat ++
      '-' :: (pad 2 (monthDay (isLeap (yearDay day).1) (yearDay day).2).1 ++
        '-' :: pad 2 (monthDay (isLeap (yearDay day).1) (yearDay day).2).2) := by
  rw [← appendInt_of_nonneg h]
  rfl

theorem length_dateText {day : Int} (h : 0 ≤ (yearDay day).1 ∧ (yearDay day).1 ≤ 9999) :
    (dateText day).length = 10 := by
  rw [dateText_eq h]
  simp only [List.length_append, List.length_cons, length_pad]

/-- **Dates compare as text the way days do.** -/
theorem dateText_lt {day day' : Int} (h : 0 ≤ (yearDay day).1 ∧ (yearDay day).1 ≤ 9999)
    (h' : 0 ≤ (yearDay day').1 ∧ (yearDay day').1 ≤ 9999) (hlt : day < day') :
    dateText day < dateText day' := by
  obtain ⟨hday, hyday⟩ := yearDay_spec day
  obtain ⟨hday', hyday'⟩ := yearDay_spec day'
  rw [dateText_eq h, dateText_eq h']
  generalize (yearDay day).1 = year at *
  generalize (yearDay day').1 = year' at *
  rcases Int.lt_trichotomy year year' with hyear | rfl | hyear
  · exact pad_append_lt (by omega) (by omega)
  · have hlt' : (yearDay day).2 < (yearDay day').2 := by omega
    rw [append_left_lt_iff, List.cons_lt_cons_self]
    rcases monthDay_lt _ hlt' hyday' with hmonth | ⟨hmonth, hdate⟩
    · exact pad_append_lt hmonth (monthDay_spec _ hyday').1.1
    · rw [hmonth, append_left_lt_iff, List.cons_lt_cons_self]
      exact pad_lt_pad hdate (monthDay_spec _ hyday').1.2
  · have hle := daysBeforeYear_le hyear
    omega

theorem length_clockText (second : Nat) : (clockText second).length = 8 := by
  simp only [clockText, List.length_append, List.length_cons, length_pad]

/-- **Clock readings compare as text the way seconds do.** -/
theorem clockText_lt {second second' : Nat} (hlt : second < second') (h : second' < 86400) :
    clockText second < clockText second' := by
  unfold clockText
  by_cases hhour : second / 3600 = second' / 3600
  · rw [hhour, append_left_lt_iff, List.cons_lt_cons_self]
    by_cases hminute : second / 60 % 60 = second' / 60 % 60
    · rw [hminute, append_left_lt_iff, List.cons_lt_cons_self]
      exact pad_lt_pad (by omega) (by omega)
    · exact pad_append_lt (by omega) (by omega)
  · exact pad_append_lt (by omega) (by omega)

/-- **Behind a point or not**, fractions of which neither begins with the other compare like their
numbers. -/
theorem suffix_lt_iff {n m : Nat} (hn : n < 10 ^ 9) (hm : m < 10 ^ 9)
    (hnm : ¬ fraction 9 n <+: fraction 9 m) (hmn : ¬ fraction 9 m <+: fraction 9 n) :
    suffix (fraction 9 n) < suffix (fraction 9 m) ↔ n < m := by
  rw [← terminated_lt_iff hn hm hnm hmn ['Z'] ['Z']]
  cases hfn : fraction 9 n with
  | nil =>
    rw [hfn] at hnm
    exact absurd List.nil_prefix hnm
  | cons d ds =>
    cases hfm : fraction 9 m with
    | nil =>
      rw [hfm] at hmn
      exact absurd List.nil_prefix hmn
    | cons e es =>
      show '.' :: (d :: ds ++ ['Z']) < '.' :: (e :: es ++ ['Z']) ↔ _
      rw [List.cons_lt_cons_self]

/-- **A fraction another begins with** has the larger text. -/
theorem suffix_lt_of_prefix {n m : Nat} (hn : n < 10 ^ 9) (hm : m < 10 ^ 9) (hne : n ≠ m)
    (h : fraction 9 n <+: fraction 9 m) :
    n < m ∧ suffix (fraction 9 m) < suffix (fraction 9 n) := by
  obtain ⟨hlt, htext⟩ := lt_of_prefix hn hm hne h (z := 'Z') (by decide)
  refine ⟨hlt, ?_⟩
  cases hfm : fraction 9 m with
  | nil =>
    rw [hfm, List.prefix_nil] at h
    exact absurd (fraction_inj hn hm (h.trans hfm.symm)) hne
  | cons e es =>
    cases hfn : fraction 9 n with
    | nil => exact List.cons_lt_cons_iff.mpr (Or.inl (by decide))
    | cons d ds =>
      rw [hfm, hfn] at htext
      show '.' :: (e :: es ++ ['Z']) < '.' :: (d :: ds ++ ['Z'])
      rwa [List.cons_lt_cons_self]

end Fields

end Rfc3339

namespace Time

open Rfc3339 Calendar

/-- The day of an instant, counted from 1 January of year 1. -/
def day (t : Time) : Int := t.unix / 86400 + 719162

/-- `t.Year()`. -/
def year (t : Time) : Int := (yearDay t.day).1

/-- `t.Nanosecond()`. -/
def nanosecond (t : Time) : Nat := (t.ns % 1000000000).toNat

/-- The digits of the fraction of a second that are written. -/
def fraction (t : Time) : List Char := Decimal.fraction 9 t.nanosecond

/-- `t.Format(time.RFC3339Nano)` up to the seconds. -/
def formatSecond (t : Time) : List Char := dateText t.day ++ 'T' :: clockText (t.unix % 86400).toNat

/-- `t.Format(time.RFC3339Nano)`. -/
def format (t : Time) : List Char := t.formatSecond ++ suffix t.fraction

/-- The years that are written with four digits. -/
def FourDigitYear (t : Time) : Prop := 0 ≤ t.year ∧ t.year ≤ 9999

instance (t : Time) : Decidable t.FourDigitYear :=
  inferInstanceAs (Decidable (0 ≤ t.year ∧ t.year ≤ 9999))

section Format

variable {t u : Time}

theorem nanosecond_lt : t.nanosecond < 10 ^ 9 := by
  unfold nanosecond
  omega

theorem ns_lt_iff : t.ns < u.ns ↔ t.unix < u.unix ∨ t.unix = u.unix ∧ t.nanosecond < u.nanosecond := by
  unfold unix nanosecond
  omega

theorem eq_of_parts (hsecond : t.unix = u.unix) (hnano : t.nanosecond = u.nanosecond) : t = u := by
  ext
  unfold unix at hsecond
  unfold nanosecond at hnano
  omega

theorem length_formatSecond (ht : t.FourDigitYear) : t.formatSecond.length = 19 := by
  rw [formatSecond, List.length_append, length_dateText ht, List.length_cons, length_clockText]

/-- **Up to the seconds the text is chronological.** -/
theorem formatSecond_lt (ht : t.FourDigitYear) (hu : u.FourDigitYear) (h : t.unix < u.unix) :
    t.formatSecond < u.formatSecond := by
  unfold formatSecond
  by_cases hday : t.day = u.day
  · rw [hday, Decimal.append_left_lt_iff, List.cons_lt_cons_self]
    unfold day at hday
    exact clockText_lt (by omega) (by omega)
  · refine Decimal.append_lt_append_of_lt ?_ (dateText_lt ht hu ?_)
    · rw [length_dateText ht, length_dateText hu]
    · unfold day at hday ⊢
      omega

theorem formatSecond_congr (h : t.unix = u.unix) : t.formatSecond = u.formatSecond := by
  rw [formatSecond, day, h]
  rfl

/-- Two instants of one second with the fraction of one a beginning of that of the other. -/
def Overlaps (t u : Time) : Prop :=
  t ≠ u ∧ t.unix = u.unix ∧ (t.fraction <+: u.fraction ∨ u.fraction <+: t.fraction)

/-- **The text is chronological except within a second**, and there exactly when neither fraction
begins with the other. -/
theorem format_lt_iff (ht : t.FourDigitYear) (hu : u.FourDigitYear) :
    (t.format < u.format ↔ t.ns < u.ns) ↔ ¬ t.Overlaps u := by
  unfold format
  rcases Int.lt_trichotomy t.unix u.unix with hsecond | hsecond | hsecond
  · have hlt := Decimal.append_lt_append_of_lt (s := suffix t.fraction) (t := suffix u.fraction)
      (by rw [length_formatSecond ht, length_formatSecond hu]) (formatSecond_lt ht hu hsecond)
    have hns : t.ns < u.ns := ns_lt_iff.mpr (Or.inl hsecond)
    exact ⟨fun _ h => Int.ne_of_lt hsecond h.2.1, fun _ => ⟨fun _ => hns, fun _ => hlt⟩⟩
  · have hns : t.ns < u.ns ↔ t.nanosecond < u.nanosecond := by
      rw [ns_lt_iff]
      omega
    rw [formatSecond_congr hsecond, Decimal.append_left_lt_iff, hns]
    by_cases heq : t = u
    · rw [heq]
      exact ⟨fun _ h => h.1 rfl, fun _ => ⟨fun h => absurd h (List.lt_irrefl _),
        fun h => absurd h (Nat.lt_irrefl _)⟩⟩
    · have hne : t.nanosecond ≠ u.nanosecond := fun hnano => heq (eq_of_parts hsecond hnano)
      by_cases htu : t.fraction <+: u.fraction
      · obtain ⟨hnano, htext⟩ := suffix_lt_of_prefix nanosecond_lt nanosecond_lt hne htu
        exact ⟨fun h => absurd (h.mpr hnano) (List.lt_asymm htext),
          fun h => absurd ⟨heq, hsecond, Or.inl htu⟩ h⟩
      · by_cases hut : u.fraction <+: t.fraction
        · obtain ⟨hnano, htext⟩ := suffix_lt_of_prefix nanosecond_lt nanosecond_lt hne.symm hut
          exact ⟨fun h => absurd (h.mp htext) (Nat.lt_asymm hnano),
            fun h => absurd ⟨heq, hsecond, Or.inr hut⟩ h⟩
        · exact ⟨fun _ h => h.2.2.elim htu hut,
            fun _ => suffix_lt_iff nanosecond_lt nanosecond_lt htu hut⟩
  · have hlt := Decimal.append_lt_append_of_lt (s := suffix u.fraction) (t := suffix t.fraction)
      (by rw [length_formatSecond ht, length_formatSecond hu]) (formatSecond_lt hu ht hsecond)
    have hns : ¬ t.ns < u.ns := by
      rw [ns_lt_iff]
      omega
    exact ⟨fun _ h => Int.ne_of_gt hsecond h.2.1, fun _ =>
      ⟨fun h => absurd h (List.lt_asymm hlt), fun h => absurd h hns⟩⟩

end Format

example : (Time.ofUnix 0).format = "1970-01-01T00:00:00Z".toList := by decide +kernel

end Time

end TinyProbe
