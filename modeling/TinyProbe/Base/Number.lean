import Mathlib.Data.Rat.Floor

/-!
# The numbers of the page

JavaScript has one type of numbers, float64 with its infinities and NaN. As with `Float64`, the type
is a parameter `F` with the operations the charts use, so that rounding is not opened. Six laws come
with them. On finite numbers `<` orders by value, so not being smaller is transitive, and every finite
number lies between the infinities. `Math.max` gives back one of its arguments, and neither is larger;
of the two zeros it prefers the positive one, which no comparison sees.

`JSNumber` is the arithmetic without rounding and with one zero. A width is a `JSNumber`: doubling one
does not round, and `Math.round` looks at the exact value.
-/

namespace TinyProbe

/-- The operations of the charts on numbers. -/
class Number (F : Type) where
  /-- A counter of the source. -/
  ofNat : Nat → F
  add : F → F → F
  div : F → F → F
  /-- `Math.max`. -/
  max : F → F → F
  /-- `x < y`. -/
  lt : F → F → Bool
  /-- `Number.isFinite`. -/
  isFinite : F → Bool
  /-- `Number.POSITIVE_INFINITY`. -/
  posInf : F
  /-- `Number.NEGATIVE_INFINITY`. -/
  negInf : F
  lt_irrefl : ∀ x, lt x x = false
  not_lt_trans : ∀ x y z, isFinite x = true → isFinite y = true → isFinite z = true →
    lt x y = false → lt y z = false → lt x z = false
  lt_posInf : ∀ x, isFinite x = true → lt x posInf = true
  negInf_lt : ∀ x, isFinite x = true → lt negInf x = true
  lt_asymm : ∀ x y, lt x y = true → lt y x = false
  max_cases : ∀ x y, isFinite x = true → isFinite y = true →
    (max x y = x ∧ lt x y = false) ∨ (max x y = y ∧ lt y x = false)

/-- Numbers without rounding. -/
inductive JSNumber where
  | nan
  | negInf
  | fin (q : ℚ)
  | posInf
deriving DecidableEq

namespace JSNumber

def isFinite : JSNumber → Bool
  | fin _ => true
  | _ => false

def lt : JSNumber → JSNumber → Bool
  | fin p, fin q => decide (p < q)
  | negInf, fin _ => true
  | negInf, posInf => true
  | fin _, posInf => true
  | _, _ => false

def add : JSNumber → JSNumber → JSNumber
  | fin p, fin q => fin (p + q)
  | fin _, y => y
  | x, fin _ => x
  | posInf, posInf => posInf
  | negInf, negInf => negInf
  | _, _ => nan

/-- The charts divide by a positive counter only. -/
def div : JSNumber → JSNumber → JSNumber
  | fin p, fin q => if q = 0 then nan else fin (p / q)
  | x, fin _ => x
  | _, _ => nan

def max : JSNumber → JSNumber → JSNumber
  | nan, _ => nan
  | _, nan => nan
  | x, y => if lt x y then y else x

/-- A finite number is one with a rational value. -/
theorem isFinite_iff {x : JSNumber} : x.isFinite = true ↔ ∃ q, x = fin q := by
  cases x with
  | fin q => exact ⟨fun _ => ⟨q, rfl⟩, fun _ => rfl⟩
  | nan => exact ⟨(fun h => by cases h), (fun h => by obtain ⟨q, hq⟩ := h; cases hq)⟩
  | negInf => exact ⟨(fun h => by cases h), (fun h => by obtain ⟨q, hq⟩ := h; cases hq)⟩
  | posInf => exact ⟨(fun h => by cases h), (fun h => by obtain ⟨q, hq⟩ := h; cases hq)⟩

/-- Finite numbers compare by their values. -/
theorem fin_lt_fin {p q : ℚ} : lt (fin p) (fin q) = false ↔ q ≤ p := by
  rw [lt, decide_eq_false_iff_not, not_lt]

instance : Number JSNumber where
  ofNat n := fin n
  add := add
  div := div
  max := max
  lt := lt
  isFinite := isFinite
  posInf := posInf
  negInf := negInf
  lt_irrefl x := by
    cases x with
    | fin q => exact fin_lt_fin.mpr (le_refl q)
    | nan => rfl
    | negInf => rfl
    | posInf => rfl
  not_lt_trans x y z hx hy hz hxy hyz := by
    obtain ⟨p, rfl⟩ := isFinite_iff.mp hx
    obtain ⟨q, rfl⟩ := isFinite_iff.mp hy
    obtain ⟨r, rfl⟩ := isFinite_iff.mp hz
    exact fin_lt_fin.mpr (le_trans (fin_lt_fin.mp hyz) (fin_lt_fin.mp hxy))
  lt_posInf x hx := by
    obtain ⟨q, rfl⟩ := isFinite_iff.mp hx
    rfl
  negInf_lt x hx := by
    obtain ⟨q, rfl⟩ := isFinite_iff.mp hx
    rfl
  lt_asymm x y hxy := by
    cases x with
    | fin p =>
      cases y with
      | fin q => exact fin_lt_fin.mpr (le_of_lt (of_decide_eq_true hxy))
      | nan => rfl
      | negInf => cases hxy
      | posInf => rfl
    | nan => cases hxy
    | negInf =>
      cases y with
      | fin q => rfl
      | nan => rfl
      | negInf => cases hxy
      | posInf => rfl
    | posInf => cases y <;> cases hxy
  max_cases x y hx hy := by
    obtain ⟨p, rfl⟩ := isFinite_iff.mp hx
    obtain ⟨q, rfl⟩ := isFinite_iff.mp hy
    by_cases hlt : p < q
    · exact Or.inr ⟨if_pos (decide_eq_true hlt), fin_lt_fin.mpr (le_of_lt hlt)⟩
    · exact Or.inl ⟨if_neg (by rwa [lt, decide_eq_true_iff]), fin_lt_fin.mpr (not_lt.mp hlt)⟩

end JSNumber

end TinyProbe
