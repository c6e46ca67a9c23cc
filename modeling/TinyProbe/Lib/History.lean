import Mathlib.Order.Lattice

/-!
# Values over time

A history is a list of timestamped values, the newest first. A value is in force from its own
timestamp until the timestamp of the next one, so `asOf u` is the value in force at `u`: the newest
one that is not younger than `u`.
-/

namespace TinyProbe.History

variable {T V : Type*} [LinearOrder T]

/-- The value in force at `u`. -/
def asOf (u : T) (history : List (T × V)) : Option V :=
  (history.find? fun entry => decide (entry.1 ≤ u)).map Prod.snd

@[simp] theorem asOf_nil (u : T) : asOf u ([] : List (T × V)) = none := rfl

/-- The newest entry that is not after the instant counts. -/
theorem asOf_cons (u t : T) (v : V) (history : List (T × V)) :
    asOf u ((t, v) :: history) = if t ≤ u then some v else asOf u history := by
  unfold asOf
  by_cases h : t ≤ u <;> simp [h]

end TinyProbe.History
