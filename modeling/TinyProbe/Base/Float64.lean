import Mathlib.Data.Rat.Defs
import Mathlib.Algebra.Order.Ring.Rat

/-!
# float64, by its operations

The program computes with float64 in two places: the values of the alert metrics and the minute
averages. Nothing in the model opens a float: the type is a parameter `F` and the program's
operations on it are the fields of `Float64`. A result about `F` holds of IEEE arithmetic and of
every other reading of the same operations. Three facts about the constants 0 and 1 come with
them, since the offline metric is one of the two compared with the other.

`Exact` is the arithmetic without rounding, over the rationals and `+Inf`. It agrees with float64
on inputs that need no rounding, and it is what the concrete runs are evaluated with.
-/

namespace TinyProbe

/-- The float64 operations of the program. -/
class Float64 (F : Type) where
  /-- `float64(n)` for an unsigned integer, and the integer constants of the source. -/
  ofNat : Nat → F
  add : F → F → F
  mul : F → F → F
  div : F → F → F
  max : F → F → F
  min : F → F → F
  /-- `x < y`. -/
  lt : F → F → Bool
  /-- `x <= y`. -/
  le : F → F → Bool
  /-- `x == y`. -/
  beq : F → F → Bool
  /-- `math.Inf(1)`. -/
  inf : F
  /-- `math.IsInf(x, 1)`. -/
  isInf : F → Bool
  zero_lt_one : lt (ofNat 0) (ofNat 1) = true
  not_zero_lt_zero : lt (ofNat 0) (ofNat 0) = false
  zero_beq_zero : beq (ofNat 0) (ofNat 0) = true

namespace Float64

variable {F : Type} [Float64 F]

/-- `float64(n)` for a uint64. -/
def ofUInt64 (n : UInt64) : F := ofNat n.toNat

end Float64

/-- Exact arithmetic over the rationals and `+Inf`. -/
inductive Exact where
  | fin (q : ℚ)
  | inf
deriving DecidableEq

namespace Exact

/-- An operation on finite values, `+Inf` as soon as one argument is. -/
def map₂ (f : ℚ → ℚ → ℚ) : Exact → Exact → Exact
  | fin p, fin q => fin (f p q)
  | _, _ => inf

def lt : Exact → Exact → Bool
  | fin p, fin q => decide (p < q)
  | fin _, inf => true
  | inf, _ => false

instance : Float64 Exact where
  ofNat n := fin n
  add := map₂ (· + ·)
  mul := map₂ (· * ·)
  div := map₂ (· / ·)
  max x y := if lt x y then y else x
  min x y := if lt y x then y else x
  lt := lt
  le x y := !lt y x
  beq x y := x == y
  inf := inf
  isInf x := x == inf
  zero_lt_one := by decide +kernel
  not_zero_lt_zero := by decide +kernel
  zero_beq_zero := by decide +kernel

end Exact

end TinyProbe
