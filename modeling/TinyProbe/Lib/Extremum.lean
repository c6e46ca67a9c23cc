import Mathlib.Data.Option.Basic

/-!
# Extrema of a sequence with gaps

A sequence has a value at some of its places. `Foremost` says that a place of a window has a value
and that no value of the window comes before it; for one order these are the minima, for the
converse order the maxima. A loop that remembers the best place so far, and starts from a bound that
every value comes before, ends with one (`Tracks`).
-/

namespace TinyProbe.Extremum

variable {A : Type*} {before : A → A → Bool} {p : A → Prop} {bound : A} {v : Nat → Option A}
  {start stop i j : Nat} {x y : A}

/-- `before` compares the values that satisfy `p`, and these come before the bound. -/
structure Ranking (before : A → A → Bool) (p : A → Prop) (bound : A) : Prop where
  asymm : ∀ x y, before x y = true → before y x = false
  trans : ∀ x y z, p x → p y → p z → before x y = false → before y z = false → before x z = false
  bound : ∀ x, p x → before x bound = true

/-- The place `j` of a window has the value `x`, and no value of the window comes before it. -/
structure Foremost (before : A → A → Bool) (v : Nat → Option A) (start stop j : Nat) (x : A) :
    Prop where
  start_le : start ≤ j
  lt_stop : j < stop
  value : v j = some x
  foremost : ∀ i y, start ≤ i → i < stop → v i = some y → before y x = false

/-- A loop over a window has found a foremost place, or the window has no value. -/
def Tracks (before : A → A → Bool) (bound : A) (v : Nat → Option A) (start stop : Nat)
    (index : Option Nat) (value : A) : Prop :=
  match index with
  | none => value = bound ∧ ∀ i, start ≤ i → i < stop → v i = none
  | some j => Foremost before v start stop j value

theorem Ranking.irrefl (hr : Ranking before p bound) (x : A) : before x x = false := by
  cases h : before x x with
  | false => rfl
  | true => exact h.symm.trans (hr.asymm x x h)

variable {index : Option Nat} {value : A}

theorem tracks_empty : Tracks before bound v start start none bound :=
  ⟨rfl, fun _ hle hlt => absurd hlt (Nat.not_lt_of_le hle)⟩

/-- A place without a value changes nothing. -/
theorem Tracks.skip (h : Tracks before bound v start stop index value) (hnone : v stop = none) :
    Tracks before bound v start (stop + 1) index value := by
  have hplace : ∀ i, i < stop + 1 → i < stop ∨ v i = none := by
    intro i hi
    rcases Nat.lt_succ_iff_lt_or_eq.mp hi with hlt | rfl
    · exact Or.inl hlt
    · exact Or.inr hnone
  cases index with
  | none =>
    obtain ⟨hvalue, hall⟩ := h
    exact ⟨hvalue, fun i hle hlt => (hplace i hlt).elim (hall i hle) id⟩
  | some j =>
    refine ⟨h.start_le, Nat.lt_succ_of_lt h.lt_stop, h.value, fun i y hle hlt hy => ?_⟩
    rcases hplace i hlt with hi | hi
    · exact h.foremost i y hle hi hy
    · rw [hi] at hy
      cases hy

/-- A value that comes before the best so far replaces it. -/
theorem Tracks.add (h : Tracks before bound v start stop index value) (hr : Ranking before p bound)
    (hv : ∀ i x, v i = some x → p x) (hle : start ≤ stop) (hx : v stop = some x) :
    Tracks before bound v start (stop + 1) (if before x value then some stop else index)
      (if before x value then x else value) := by
  cases index with
  | none =>
    obtain ⟨rfl, hall⟩ := h
    rw [if_pos (hr.bound x (hv stop x hx)), if_pos (hr.bound x (hv stop x hx))]
    refine ⟨hle, Nat.lt_succ_self stop, hx, fun i y hi hlt hy => ?_⟩
    rcases Nat.lt_succ_iff_lt_or_eq.mp hlt with hlt | rfl
    · rw [hall i hi hlt] at hy
      cases hy
    · rw [hx] at hy
      cases hy
      exact hr.irrefl x
  | some j =>
    split
    next hbefore =>
      refine ⟨hle, Nat.lt_succ_self stop, hx, fun i y hi hlt hy => ?_⟩
      rcases Nat.lt_succ_iff_lt_or_eq.mp hlt with hlt | rfl
      · exact hr.trans y value x (hv i y hy) (hv j value h.value) (hv stop x hx)
          (h.foremost i y hi hlt hy) (hr.asymm x value hbefore)
      · rw [hx] at hy
        cases hy
        exact hr.irrefl x
    next hnot =>
      refine ⟨h.start_le, Nat.lt_succ_of_lt h.lt_stop, h.value, fun i y hi hlt hy => ?_⟩
      rcases Nat.lt_succ_iff_lt_or_eq.mp hlt with hlt | rfl
      · exact h.foremost i y hi hlt hy
      · rw [hx] at hy
        cases hy
        exact Bool.eq_false_iff.mpr hnot

/-- The place that a loop has found lies in its window. -/
theorem Tracks.mem (h : Tracks before bound v start stop (some j) value) : start ≤ j ∧ j < stop :=
  ⟨h.start_le, h.lt_stop⟩

/-- In a window with a value a loop has found a foremost place. -/
theorem Tracks.found (h : Tracks before bound v start stop index value) (hi : start ≤ i)
    (hlt : i < stop) (hx : v i = some x) :
    ∃ j, index = some j ∧ Foremost before v start stop j value := by
  cases index with
  | none =>
    rw [h.2 i hi hlt] at hx
    cases hx
  | some j => exact ⟨j, rfl, h⟩

/-- Every window has something to track. -/
theorem exists_tracks (hr : Ranking before p bound) (hv : ∀ i x, v i = some x → p x)
    (start length : Nat) :
    ∃ index value, Tracks before bound v start (start + length) index value := by
  induction length with
  | zero => exact ⟨none, bound, tracks_empty⟩
  | succ length ih =>
    obtain ⟨index, value, h⟩ := ih
    cases hx : v (start + length) with
    | none => exact ⟨index, value, h.skip hx⟩
    | some x => exact ⟨_, _, h.add hr hv (Nat.le_add_right start length) hx⟩

/-- **A window with a value has a foremost place.** -/
theorem exists_foremost (hr : Ranking before p bound) (hv : ∀ i x, v i = some x → p x)
    (hi : start ≤ i) (hlt : i < stop) (hx : v i = some x) :
    ∃ j y, Foremost before v start stop j y := by
  obtain ⟨index, value, h⟩ := exists_tracks hr hv start (stop - start)
  rw [Nat.add_sub_cancel' (by omega)] at h
  obtain ⟨j, _, hj⟩ := h.found hi hlt hx
  exact ⟨j, value, hj⟩

/-- **If a window has a foremost place of the whole, its own foremost places are such.** -/
theorem Foremost.widen (hr : Ranking before p bound) (hv : ∀ i x, v i = some x → p x)
    {start' stop' : Nat} (hwhole : Foremost before v start' stop' i x)
    (h : Foremost before v start stop j y) (hi : start ≤ i) (hlt : i < stop)
    (hj : start' ≤ j) (hjlt : j < stop') : Foremost before v start' stop' j y where
  start_le := hj
  lt_stop := hjlt
  value := h.value
  foremost k z hk hklt hz :=
    hr.trans z x y (hv k z hz) (hv i x hwhole.value) (hv j y h.value)
      (hwhole.foremost k z hk hklt hz) (h.foremost i x hi hlt hwhole.value)

end TinyProbe.Extremum
