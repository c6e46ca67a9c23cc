import TinyProbe.Base.Finite
import Mathlib.Algebra.Order.Field.Basic
import Mathlib.Tactic.NormNum

/-!
# float64 with its range

`Ranged` is `Exact` with the bound of float64: a result that exceeds the largest finite number becomes
an infinity, and what the operations make of infinities follows IEEE. There is no rounding and one
zero. It is the arithmetic to ask whether a computation overflows.
-/

namespace TinyProbe

/-- The largest finite float64. -/
@[irreducible] def largest : ℚ := ((2 ^ 53 - 1) * 2 ^ 971 : Nat)

/-- Not out of the range of the finite float64. -/
def InRange (q : ℚ) : Prop := -largest ≤ q ∧ q ≤ largest

instance : DecidablePred InRange := fun q => inferInstanceAs (Decidable (-largest ≤ q ∧ q ≤ largest))

/-- Numbers in the range of float64, with NaN and the infinities. -/
inductive Ranged where
  | nan
  | negInf
  | fin (q : { q : ℚ // InRange q })
  | posInf
deriving DecidableEq

namespace Ranged

def ofRat (q : ℚ) : Ranged :=
  if h : InRange q then fin ⟨q, h⟩ else if 0 < q then posInf else negInf

/-- Neither `math.IsNaN` nor `math.IsInf(value, 0)`. -/
def finite : Ranged → Bool
  | fin _ => true
  | _ => false

/-- The value of a finite number. -/
def toRat : Ranged → ℚ
  | fin q => q.1
  | _ => 0

def neg : Ranged → Ranged
  | nan => nan
  | negInf => posInf
  | fin q => ofRat (-q.1)
  | posInf => negInf

/-- An infinity with the sign of `q`, NaN for zero. -/
def infOf (q : ℚ) : Ranged := if q = 0 then nan else if 0 < q then posInf else negInf

def add : Ranged → Ranged → Ranged
  | fin p, fin q => ofRat (p.1 + q.1)
  | nan, _ => nan
  | _, nan => nan
  | fin _, y => y
  | x, fin _ => x
  | posInf, posInf => posInf
  | negInf, negInf => negInf
  | posInf, negInf => nan
  | negInf, posInf => nan

def mul : Ranged → Ranged → Ranged
  | fin p, fin q => ofRat (p.1 * q.1)
  | nan, _ => nan
  | _, nan => nan
  | fin p, posInf => infOf p.1
  | fin p, negInf => infOf (-p.1)
  | posInf, fin q => infOf q.1
  | negInf, fin q => infOf (-q.1)
  | posInf, y => y
  | negInf, y => y.neg

/-- A divisor of zero is the positive zero. -/
def div : Ranged → Ranged → Ranged
  | fin p, fin q => if q.1 = 0 then infOf p.1 else ofRat (p.1 / q.1)
  | nan, _ => nan
  | _, nan => nan
  | fin _, _ => ofRat 0
  | posInf, fin q => if q.1 = 0 then posInf else infOf q.1
  | negInf, fin q => if q.1 = 0 then negInf else infOf (-q.1)
  | _, _ => nan

def lt : Ranged → Ranged → Bool
  | fin p, fin q => decide (p.1 < q.1)
  | negInf, fin _ => true
  | negInf, posInf => true
  | fin _, posInf => true
  | _, _ => false

/-- Equal numbers; NaN is none. -/
def beq : Ranged → Ranged → Bool
  | nan, _ => false
  | x, y => x == y

def max : Ranged → Ranged → Ranged
  | nan, _ => nan
  | _, nan => nan
  | x, y => if lt x y then y else x

def min : Ranged → Ranged → Ranged
  | nan, _ => nan
  | _, nan => nan
  | x, y => if lt y x then y else x

/-- The naturals up to the largest finite value are in range. -/
theorem natCast_le_largest {n : Nat} (h : n ≤ (2 ^ 53 - 1) * 2 ^ 971) : (n : ℚ) ≤ largest := by
  unfold largest
  exact Nat.cast_le.mpr h

theorem largest_nonneg : 0 ≤ largest := by
  rw [← Nat.cast_zero]
  exact natCast_le_largest (Nat.zero_le _)

/-- A nonnegative number below the largest one is in the range. -/
theorem inRange_of_nonneg {q : ℚ} (hq : 0 ≤ q) (hle : q ≤ largest) : InRange q :=
  ⟨le_trans (neg_nonpos.mpr largest_nonneg) hq, hle⟩

/-- A value in range is represented as it is. -/
theorem ofRat_of_inRange {q : ℚ} (h : InRange q) : ofRat q = fin ⟨q, h⟩ := dif_pos h

@[simp] theorem finite_ofRat {q : ℚ} : finite (ofRat q) = true ↔ InRange q := by
  unfold ofRat
  split
  next h => exact iff_of_true rfl h
  next h =>
    refine iff_of_false ?_ h
    split <;> exact Bool.false_ne_true

theorem toRat_ofRat {q : ℚ} (h : InRange q) : toRat (ofRat q) = q := by
  rw [ofRat_of_inRange h]
  rfl

/-- A finite value is a rational in range. -/
theorem finite_iff {x : Ranged} : finite x = true ↔ ∃ q, x = fin q := by
  cases x with
  | fin q => exact ⟨fun _ => ⟨q, rfl⟩, fun _ => rfl⟩
  | nan => exact ⟨(fun h => by cases h), (fun h => by obtain ⟨q, hq⟩ := h; cases hq)⟩
  | negInf => exact ⟨(fun h => by cases h), (fun h => by obtain ⟨q, hq⟩ := h; cases hq)⟩
  | posInf => exact ⟨(fun h => by cases h), (fun h => by obtain ⟨q, hq⟩ := h; cases hq)⟩

/-- The conversion of a uint64 is exact. -/
theorem inRange_natCast {n : Nat} (h : n < 2 ^ 64) : InRange (n : ℚ) := by
  refine inRange_of_nonneg (Nat.cast_nonneg n) (natCast_le_largest ?_)
  exact le_trans (le_of_lt h) (by decide +kernel)

theorem inRange_zero : InRange 0 := inRange_of_nonneg (le_refl 0) largest_nonneg

/-- Finite values compare by their rationals. -/
theorem lt_fin {p q : { q : ℚ // InRange q }} : lt (fin p) (fin q) = false ↔ q.1 ≤ p.1 := by
  rw [lt, decide_eq_false_iff_not, not_lt]

instance : FiniteFloat Ranged where
  ofNat n := ofRat n
  add := add
  mul := mul
  div := div
  max := max
  min := min
  lt := lt
  le x y := lt x y || beq x y
  beq := beq
  inf := posInf
  isInf x := x == posInf
  zero_lt_one := by decide +kernel
  not_zero_lt_zero := by decide +kernel
  zero_beq_zero := by decide +kernel
  finite := finite
  finite_ofNat n h := finite_ofRat.mpr (inRange_natCast h)
  le_of_not_lt x y hx hy h := by
    obtain ⟨p, rfl⟩ := finite_iff.mp hx
    obtain ⟨q, rfl⟩ := finite_iff.mp hy
    have hle : q.1 ≤ p.1 := lt_fin.mp h
    rw [Bool.or_eq_true]
    rcases lt_or_eq_of_le hle with hlt | heq
    · exact Or.inl (decide_eq_true hlt)
    · refine Or.inr (beq_iff_eq.mpr ?_)
      rw [Subtype.ext heq]
  lt_of_not_le x y hx hy h := by
    obtain ⟨p, rfl⟩ := finite_iff.mp hx
    obtain ⟨q, rfl⟩ := finite_iff.mp hy
    rw [Bool.or_eq_false_iff] at h
    have hne : q.1 ≠ p.1 := fun heq => by
      rw [Subtype.ext heq] at h
      exact Bool.false_ne_true (h.2.symm.trans (beq_self_eq_true (fin p)))
    exact decide_eq_true (lt_of_le_of_ne (lt_fin.mp h.1) hne)

end Ranged

end TinyProbe
