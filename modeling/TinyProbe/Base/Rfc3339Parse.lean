import TinyProbe.Base.Rfc3339

/-!
# Instants read back

`time.Parse(time.RFC3339Nano, value)`. Parse first reads the text as RFC 3339 has it
(`parseRFC3339`), and a text that is not of this form goes to the parser for layouts in general,
which is a parameter here.

In the years 0 to 9999 an instant is read back from its text (`parse_format`), so the text says all
there is to an instant.
-/

namespace TinyProbe

/-! ## Numbers -/

namespace Decimal

def isDigit (c : Char) : Bool := decide ('0' ≤ c) && decide (c ≤ '9')

/-- The number of a text of digits. -/
def value (s : List Char) : Nat := s.foldl (fun x c => x * 10 + (c.toNat - '0'.toNat)) 0

section Value

variable {w n : Nat} {s t : List Char}

/-- The digits are the characters from `0` to `9`. -/
theorem isDigit_iff {c : Char} : isDigit c = true ↔ '0' ≤ c ∧ c ≤ '9' := by
  rw [isDigit, Bool.and_eq_true, decide_eq_true_eq, decide_eq_true_eq]

/-- A padded number has digits only. -/
theorem all_isDigit_pad (w n : Nat) : (pad w n).all isDigit = true :=
  List.all_eq_true.mpr fun _ hc => isDigit_iff.mpr (digit_of_mem_pad hc)

/-- A digit more makes ten times the value and the digit. -/
theorem value_snoc (s : List Char) (c : Char) :
    value (s ++ [c]) = value s * 10 + (c.toNat - '0'.toNat) := by
  rw [value, List.foldl_append]
  rfl

/-- A padded number is read back. -/
theorem value_pad (h : n < 10 ^ w) : value (pad w n) = n := by
  induction w generalizing n with
  | zero =>
    rw [Nat.pow_zero] at h
    rw [pad, Nat.lt_one_iff.mp h]
    rfl
  | succ w ih =>
    have hall : ∀ i < 10, (Nat.digitChar i).toNat - '0'.toNat = i := by decide
    rw [Nat.pow_succ] at h
    rw [pad, value_snoc, ih (by omega), hall _ (Nat.mod_lt n (by decide))]
    omega

/-- Zeros behind the digits multiply by ten. -/
theorem value_zeros (s : List Char) (k : Nat) :
    value (s ++ List.replicate k '0') = value s * 10 ^ k := by
  induction k with
  | zero => rw [List.replicate_zero, List.append_nil, Nat.pow_zero, Nat.mul_one]
  | succ k ih =>
    rw [List.replicate_succ', ← List.append_assoc, value_snoc, ih, Nat.pow_succ, Nat.mul_assoc]
    rfl

/-- A fraction is read back at its scale. -/
theorem value_fraction (h : n < 10 ^ w) :
    value (fraction w n) * 10 ^ (w - (fraction w n).length) = n := by
  rw [← value_zeros, ← pad_eq_fraction, value_pad h]

/-- A fraction has no more digits than were asked for. -/
theorem length_fraction_le : (fraction w n).length ≤ w :=
  ((List.rdropWhile_prefix _ _).length_le).trans_eq length_pad

/-- A fraction has digits only. -/
theorem all_isDigit_fraction (w n : Nat) : (fraction w n).all isDigit = true :=
  List.all_eq_true.mpr fun _ hc => isDigit_iff.mpr (digit_of_mem_fraction hc)

end Value

end Decimal

/-! ## The calendar, backwards -/

namespace Calendar

/-- `daysIn`. -/
def daysIn (month : Nat) (leap : Bool) : Nat :=
  if month = 2 then (if leap then 29 else 28) else 30 + (month + month / 8) % 2

/-- The day of the year of a month and a day, as `Date` has it. -/
def dayOfYear (leap : Bool) (month dayOfMonth : Nat) : Nat :=
  daysBefore.getD (month - 1) 0 + (if leap && decide (3 ≤ month) then 1 else 0) + (dayOfMonth - 1)

private theorem monthDay_back : ∀ leap : Bool, ((List.range 366).all fun i =>
    Nat.ble (365 + leap.toNat) i ||
      (Nat.ble 1 (monthDay leap i).1 && Nat.ble (monthDay leap i).1 12 &&
        Nat.ble 1 (monthDay leap i).2 &&
        Nat.ble (monthDay leap i).2 (daysIn (monthDay leap i).1 leap) &&
        Nat.beq (dayOfYear leap (monthDay leap i).1 (monthDay leap i).2) i)) = true := by
  decide +kernel

/-- **A day of the year is read back** from its month and day. -/
theorem dayOfYear_monthDay (leap : Bool) {i : Nat} (hi : i < 365 + leap.toNat) :
    (1 ≤ (monthDay leap i).1 ∧ (monthDay leap i).1 ≤ 12) ∧
      (1 ≤ (monthDay leap i).2 ∧ (monthDay leap i).2 ≤ daysIn (monthDay leap i).1 leap) ∧
      dayOfYear leap (monthDay leap i).1 (monthDay leap i).2 = i := by
  have hle := Bool.toNat_le leap
  have hrow := List.all_eq_true.mp (monthDay_back leap) i (List.mem_range.mpr (by omega))
  simp only [Bool.and_eq_true, Bool.or_eq_true, Nat.ble_eq, Nat.beq_eq] at hrow
  have h := hrow.resolve_left (by omega)
  exact ⟨⟨h.1.1.1.1, h.1.1.1.2⟩, ⟨h.1.1.2, h.1.2⟩, h.2⟩

end Calendar

/-! ## The text -/

namespace Rfc3339

open Calendar Decimal

/-- `parseUint`: digits, and a number between the bounds. -/
def parseUint (s : List Char) (low high : Nat) : Option Nat :=
  if s.all isDigit = true ∧ low ≤ value s ∧ value s ≤ high then some (value s) else none

/-- The fraction of a second in front of the zone, in nanoseconds, and what is behind it. Digits
after the ninth are not looked at. -/
def parseFraction (s : List Char) : Nat × List Char :=
  match s with
  | '.' :: c :: rest =>
    if isDigit c then
      let digits := (c :: rest).takeWhile isDigit
      (value (digits.take 9) * 10 ^ (9 - (digits.take 9).length), (c :: rest).dropWhile isDigit)
    else (0, s)
  | _ => (0, s)

/-- The offset of the zone in seconds: `Z`, or a sign, hours and minutes. -/
def parseZone (s : List Char) : Option Int :=
  if s = ['Z'] then some 0
  else
    match s with
    | [sign, h1, h2, colon, m1, m2] => do
      let hours ← parseUint [h1, h2] 0 23
      let minutes ← parseUint [m1, m2] 0 59
      if (sign = '-' ∨ sign = '+') ∧ colon = ':' then
        some (if sign = '-' then -((hours * 60 + minutes) * 60) else (hours * 60 + minutes) * 60)
      else none
    | _ => none

/-- `Date(year, month, day, hour, min, sec, nsec, UTC)`. -/
def date (year month dayOfMonth hour minute second nanosecond : Nat) : Time :=
  ⟨((daysBeforeYear year + dayOfYear (isLeap year) month dayOfMonth - 719162) * 86400 +
    (hour * 3600 + minute * 60 + second : Nat)) * 1000000000 + nanosecond⟩

/-- `parseRFC3339`. -/
def parseRFC3339 (s : List Char) : Option Time :=
  if s.length < 19 then none
  else do
    let year ← parseUint (s.take 4) 0 9999
    let month ← parseUint ((s.drop 5).take 2) 1 12
    let dayOfMonth ← parseUint ((s.drop 8).take 2) 1 (daysIn month (isLeap year))
    let hour ← parseUint ((s.drop 11).take 2) 0 23
    let minute ← parseUint ((s.drop 14).take 2) 0 59
    let second ← parseUint ((s.drop 17).take 2) 0 59
    if (s.drop 4).head? = some '-' ∧ (s.drop 7).head? = some '-' ∧ (s.drop 10).head? = some 'T' ∧
        (s.drop 13).head? = some ':' ∧ (s.drop 16).head? = some ':' then
      let (nanosecond, rest) := parseFraction (s.drop 19)
      let offset ← parseZone rest
      some ⟨(date year month dayOfMonth hour minute second nanosecond).ns - offset * 1000000000⟩
    else none

section Parse

variable {w n low high : Nat}

/-- A padded number in the bounds is read as it was. -/
theorem parseUint_pad (h : n < 10 ^ w) (hlow : low ≤ n) (hhigh : n ≤ high) :
    parseUint (pad w n) low high = some n := by
  rw [parseUint, value_pad h, if_pos ⟨all_isDigit_pad w n, hlow, hhigh⟩]

/-- A fraction and its zone are told apart. -/
theorem parseFraction_suffix (hn : n < 10 ^ 9) :
    parseFraction (suffix (fraction 9 n)) = (n, ['Z']) := by
  have hvalue := value_fraction hn
  have hdigits := all_isDigit_fraction 9 n
  have hlength := length_fraction_le (w := 9) (n := n)
  cases hfraction : fraction 9 n with
  | nil =>
    rw [hfraction] at hvalue
    have hzero : n = 0 := hvalue.symm.trans (Nat.zero_mul _)
    rw [hzero]
    rfl
  | cons c cs =>
    rw [hfraction] at hvalue hdigits hlength
    have hc : isDigit c = true := List.all_eq_true.mp hdigits c List.mem_cons_self
    have htake : ((c :: cs) ++ ['Z']).takeWhile isDigit = c :: cs := by
      rw [List.takeWhile_append_of_pos (List.all_eq_true.mp hdigits)]
      exact List.append_nil _
    have hdrop : ((c :: cs) ++ ['Z']).dropWhile isDigit = ['Z'] :=
      List.dropWhile_append_of_pos (List.all_eq_true.mp hdigits)
    show (if isDigit c = true then _ else _) = _
    rw [if_pos hc]
    show (value ((((c :: cs) ++ ['Z']).takeWhile isDigit).take 9) *
      10 ^ (9 - ((((c :: cs) ++ ['Z']).takeWhile isDigit).take 9).length),
        ((c :: cs) ++ ['Z']).dropWhile isDigit) = _
    rw [htake, hdrop, List.take_of_length_le hlength, hvalue]

private theorem pad_two (n : Nat) : ∃ a b, pad 2 n = [a, b] :=
  List.length_eq_two.mp length_pad

private theorem pad_four (n : Nat) : ∃ a b c d, pad 4 n = [a, b, c, d] := ⟨_, _, _, _, rfl⟩

/-- The text of a date, a clock reading and a fraction is read back, field by field. -/
theorem parseRFC3339_fields {year month dayOfMonth hour minute second nanosecond : Nat}
    (hyear : year ≤ 9999) (hmonth : 1 ≤ month ∧ month ≤ 12)
    (hday : 1 ≤ dayOfMonth ∧ dayOfMonth ≤ daysIn month (isLeap year)) (hhour : hour ≤ 23)
    (hminute : minute ≤ 59) (hsecond : second ≤ 59) (hnano : nanosecond < 10 ^ 9) :
    parseRFC3339 ((pad 4 year ++ '-' :: (pad 2 month ++ '-' :: pad 2 dayOfMonth)) ++
      'T' :: (pad 2 hour ++ ':' :: (pad 2 minute ++ ':' :: pad 2 second)) ++
        suffix (fraction 9 nanosecond)) =
      some (date year month dayOfMonth hour minute second nanosecond) := by
  have hdays : daysIn month (isLeap year) ≤ 31 := by
    unfold daysIn
    split
    next => split <;> omega
    next => omega
  have hyear' := parseUint_pad (w := 4) (n := year) (by omega) (Nat.zero_le _) hyear
  have hmonth' := parseUint_pad (w := 2) (n := month) (by omega) hmonth.1 hmonth.2
  have hday' := parseUint_pad (w := 2) (n := dayOfMonth) (by omega) hday.1 hday.2
  have hhour' := parseUint_pad (w := 2) (n := hour) (by omega) (Nat.zero_le _) hhour
  have hminute' := parseUint_pad (w := 2) (n := minute) (by omega) (Nat.zero_le _) hminute
  have hsecond' := parseUint_pad (w := 2) (n := second) (by omega) (Nat.zero_le _) hsecond
  have hfraction := parseFraction_suffix hnano
  -- every field has a fixed place
  obtain ⟨y1, y2, y3, y4, hy⟩ := pad_four year
  obtain ⟨o1, o2, ho⟩ := pad_two month
  obtain ⟨d1, d2, hd⟩ := pad_two dayOfMonth
  obtain ⟨h1, h2, hh⟩ := pad_two hour
  obtain ⟨m1, m2, hm⟩ := pad_two minute
  obtain ⟨s1, s2, hs⟩ := pad_two second
  rw [hy] at hyear' ⊢
  rw [ho] at hmonth' ⊢
  rw [hd] at hday' ⊢
  rw [hh] at hhour' ⊢
  rw [hm] at hminute' ⊢
  rw [hs] at hsecond' ⊢
  generalize suffix (fraction 9 nanosecond) = rest at hfraction ⊢
  simp [parseRFC3339, hyear', hmonth', hday', hhour', hminute', hsecond', hfraction, parseZone]

end Parse

end Rfc3339

namespace Time

open Rfc3339 Calendar

/-- `time.Parse(time.RFC3339Nano, value)`; `general` is the parser for layouts in general. -/
def parse (general : List Char → Option Time) (value : List Char) : Option Time :=
  match parseRFC3339 value with
  | some t => some t
  | none => general value

/-- **An instant is read back from its text.** -/
theorem parse_format (general : List Char → Option Time) {t : Time} (ht : t.FourDigitYear) :
    parse general t.format = some t := by
  obtain ⟨hday, hyday⟩ := yearDay_spec t.day
  obtain ⟨hmonth, hdate, hback⟩ := dayOfYear_monthDay (isLeap (yearDay t.day).1) hyday
  have hyear : ((yearDay t.day).1.toNat : Int) = (yearDay t.day).1 := Int.toNat_of_nonneg ht.1
  have hsecond : (t.unix % 86400).toNat < 86400 := by omega
  have hfields := @parseRFC3339_fields (yearDay t.day).1.toNat _ _
    ((t.unix % 86400).toNat / 3600) ((t.unix % 86400).toNat / 60 % 60)
    ((t.unix % 86400).toNat % 60) _ (by have := ht.2; unfold year at this; omega) hmonth
    (by rw [hyear]; exact hdate) (by omega) (by omega) (by omega) t.nanosecond_lt
  have htext : t.format = _ ++ _ ++ suffix (Decimal.fraction 9 t.nanosecond) :=
    congrArg (· ++ _) (congrArg (· ++ _) (dateText_eq ht))
  rw [parse, htext]
  unfold clockText
  rw [hfields]
  refine congrArg some (Time.ext ?_)
  show ((daysBeforeYear _ + (dayOfYear (isLeap _) _ _ : Nat) - 719162) * 86400 + _) * _ + _ = _
  rw [hyear, hback, hday]
  unfold day unix nanosecond
  omega

end Time

end TinyProbe
