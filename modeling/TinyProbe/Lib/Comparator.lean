import Mathlib.Data.List.Sort

/-!
# Comparators

A comparison function as a sort takes one: the sign of its result tells which of two elements comes
first. It has to be consistent (`Comparator`), and then the sorted list is in order
(`Comparator.pairwise_insertionSort`). A flag may come before another comparison (`flagged`), and a
linear order has a comparison of its own (`compareOf`).
-/

namespace TinyProbe

universe u v

variable {A : Type u} {B : Type v}

/-- A consistent comparison: it says the same in both directions, and its order is transitive. -/
structure Comparator (compare : A → A → Int) : Prop where
  swap : ∀ a b, 0 < compare a b ↔ compare b a < 0
  trans : ∀ a b c, compare a b ≤ 0 → compare b c ≤ 0 → compare a c ≤ 0

/-- The elements without the flag first, and `compare` where the flags are equal. -/
def flagged (flag : A → Bool) (compare : A → A → Int) (a b : A) : Int :=
  if flag a != flag b then if flag a then 1 else -1 else compare a b

/-- The comparison of a linear order. -/
def compareOf [LinearOrder A] (a b : A) : Int := if a < b then -1 else if b < a then 1 else 0

section Laws

variable {compare : A → A → Int} {flag : A → Bool} {a b : A}

/-- Where the flags differ, the element without it comes first. -/
theorem flagged_of_ne (h : flag a ≠ flag b) :
    flagged flag compare a b = if flag a then 1 else -1 := by
  rw [flagged, if_pos (bne_iff_ne.mpr h)]

/-- Where the flags agree, the comparison behind them decides. -/
theorem flagged_of_eq (h : flag a = flag b) : flagged flag compare a b = compare a b := by
  rw [flagged, if_neg (by rw [h, bne_self_eq_false]; exact Bool.false_ne_true)]

/-- An element may come first when its flag, if it has it, is not the only one, and the comparison
does not speak against it where the flags agree. -/
theorem flagged_le_zero :
    flagged flag compare a b ≤ 0 ↔
      (flag a = true → flag b = true) ∧ (flag a = flag b → compare a b ≤ 0) := by
  by_cases h : flag a = flag b
  · rw [flagged_of_eq h]
    exact ⟨fun hle => ⟨fun ha => h ▸ ha, fun _ => hle⟩, fun hle => hle.2 h⟩
  · rw [flagged_of_ne h]
    cases ha : flag a with
    | false => exact iff_of_true (by decide) ⟨(fun h => by cases h), fun hb => absurd (ha.trans hb) h⟩
    | true =>
      refine iff_of_false (by decide) fun hle => h (ha.trans (hle.1 rfl).symm)

/-- The comparison says what the order says. -/
theorem compareOf_le_zero [LinearOrder A] : compareOf a b ≤ 0 ↔ a ≤ b := by
  unfold compareOf
  split
  next h => exact iff_of_true (by decide) h.le
  next =>
    split
    next h => exact iff_of_false (by decide) h.not_ge
    next h => exact iff_of_true (by decide) (not_lt.mp h)

namespace Comparator

/-- Of two elements one may come first. -/
theorem total (h : Comparator compare) (a b : A) : compare a b ≤ 0 ∨ compare b a ≤ 0 := by
  rcases Int.lt_or_le 0 (compare a b) with hlt | hle
  · exact Or.inr (Int.le_of_lt ((h.swap a b).mp hlt))
  · exact Or.inl hle

/-- What is sorted by a comparator is in order. -/
theorem pairwise_insertionSort (h : Comparator compare) (l : List A) :
    (l.insertionSort fun a b => compare a b ≤ 0).Pairwise fun a b => compare a b ≤ 0 := by
  have htotal : Std.Total fun a b => compare a b ≤ 0 := ⟨h.total⟩
  have htrans : IsTrans A fun a b => compare a b ≤ 0 := ⟨h.trans⟩
  exact List.pairwise_insertionSort _ l

/-- Elements compare as their images do. -/
theorem comap (h : Comparator compare) (f : B → A) : Comparator fun a b => compare (f a) (f b) where
  swap a b := h.swap (f a) (f b)
  trans a b c := h.trans (f a) (f b) (f c)

/-- The flagged elements last, and a comparator behind it, make a comparator. -/
theorem flagged (h : Comparator compare) (flag : A → Bool) :
    Comparator (TinyProbe.flagged flag compare) where
  swap a b := by
    by_cases hab : flag a = flag b
    · rw [flagged_of_eq hab, flagged_of_eq hab.symm]
      exact h.swap a b
    · rw [flagged_of_ne hab, flagged_of_ne (Ne.symm hab)]
      cases ha : flag a with
      | false =>
        rw [Bool.eq_true_of_not_eq_false fun hb => hab (ha.trans hb.symm)]
        decide
      | true =>
        rw [Bool.eq_false_of_not_eq_true fun hb => hab (ha.trans hb.symm)]
        decide
  trans a b c := by
    rw [flagged_le_zero, flagged_le_zero, flagged_le_zero]
    rintro ⟨hab, hcab⟩ ⟨hbc, hcbc⟩
    refine ⟨fun ha => hbc (hab ha), fun hac => ?_⟩
    -- of three flags in order, the outer ones agree only if all do
    have hflag : flag a = flag b := Bool.eq_iff_iff.mpr ⟨hab, fun hb => hac ▸ hbc hb⟩
    exact h.trans a b c (hcab hflag) (hcbc (hflag.symm.trans hac))

end Comparator

/-- The comparison of a linear order is a comparator. -/
theorem comparator_compareOf [LinearOrder A] : Comparator (compareOf : A → A → Int) where
  swap a b := by
    rw [← not_iff_not, not_lt, not_lt, compareOf_le_zero]
    unfold compareOf
    split
    next h => exact iff_of_false h.not_ge (by decide)
    next h => exact iff_of_true (not_lt.mp h) (by split <;> decide)
  trans a b c := by
    rw [compareOf_le_zero, compareOf_le_zero, compareOf_le_zero]
    exact le_trans

end Laws

end TinyProbe
