import TinyProbe.Base.Float64

/-!
# Finite float64

Numbers that arrive in JSON are finite, and the program checks others with `finite` where they come
from a measurement. `FiniteFloat` adds that test to the operations, with facts of IEEE numbers: the
integers a uint64 holds convert to finite values, and two finite values compare one way or the
other, which fails for NaN. `JSONFloat` is the type of the numbers in a request.
-/

namespace TinyProbe

/-- The float64 operations with the test for NaN and the infinities. -/
class FiniteFloat (F : Type) extends Float64 F where
  /-- Neither `math.IsNaN` nor `math.IsInf(value, 0)`. -/
  finite : F → Bool
  finite_ofNat : ∀ n < 2 ^ 64, finite (ofNat n) = true
  le_of_not_lt : ∀ x y, finite x = true → finite y = true → lt x y = false → le y x = true
  lt_of_not_le : ∀ x y, finite x = true → finite y = true → le x y = false → lt y x = true

/-- A number that JSON can write. -/
abbrev JSONFloat (F : Type) [FiniteFloat F] := { x : F // FiniteFloat.finite x = true }

namespace Exact

def finite : Exact → Bool
  | fin _ => true
  | inf => false

instance : FiniteFloat Exact where
  finite := finite
  finite_ofNat _ _ := rfl
  le_of_not_lt x y _ _ h := by
    show (!lt x y) = true
    have hlt : lt x y = false := h
    rw [hlt, Bool.not_false]
  lt_of_not_le x y _ _ h := by
    have hle : (!lt y x) = false := h
    show lt y x = true
    cases hlt : lt y x with
    | true => rfl
    | false =>
      rw [hlt] at hle
      cases hle

end Exact

end TinyProbe
