import Mathlib.Data.List.Basic

/-!
# Runs of a step function

A system is a step function: it takes a state and an action to the next state, and leaves the
state alone when the action is not possible there. A run is the fold of a list of actions, so
quantifying over lists of actions quantifies over interleavings.

Two inductions are packaged. `run_invariant` carries a property along every run. A run is
`Guarded` by a condition when each of its actions meets the condition in the state it is taken
from; `Guarded.invariant` carries a property along the guarded runs only, and where each step that
breaks the condition breaks the property too, `Throughout.guarded` is the converse.
-/

namespace TinyProbe.Run

variable {S A : Type*}

/-- The state a list of actions leads to. -/
def run (step : S → A → S) (s : S) (as : List A) : S := as.foldl step s

/-- Every action meets `ok` in the state it is taken from. -/
def Guarded (step : S → A → S) (ok : S → A → Prop) : S → List A → Prop
  | _, [] => True
  | s, a :: as => ok s a ∧ Guarded step ok (step s a) as

/-- `P` holds in every state of the run. -/
def Throughout (step : S → A → S) (P : S → Prop) (s : S) (as : List A) : Prop :=
  ∀ k, P (run step s (as.take k))

section Laws

variable {step : S → A → S} {ok : S → A → Prop} {s : S}

@[simp] theorem run_nil : run step s [] = s := rfl

@[simp] theorem run_cons (a : A) (as : List A) :
    run step s (a :: as) = run step (step s a) as := rfl

/-- Two runs in a row are one run. -/
theorem run_append (as bs : List A) : run step s (as ++ bs) = run step (run step s as) bs :=
  List.foldl_append

@[simp] theorem run_snoc (as : List A) (a : A) :
    run step s (as ++ [a]) = step (run step s as) a := run_append as [a]

@[simp] theorem guarded_nil : Guarded step ok s [] := trivial

@[simp] theorem guarded_cons {a : A} {as : List A} :
    Guarded step ok s (a :: as) ↔ ok s a ∧ Guarded step ok (step s a) as := Iff.rfl

/-- A run in two parts is guarded when both parts are, each from the state it starts in. -/
theorem guarded_append {as bs : List A} :
    Guarded step ok s (as ++ bs) ↔ Guarded step ok s as ∧ Guarded step ok (run step s as) bs := by
  induction as generalizing s with
  | nil => simp only [List.nil_append, guarded_nil, run_nil, true_and]
  | cons a as ih => simp only [List.cons_append, guarded_cons, run_cons, ih, and_assoc]

/-- One more action joins a guarded run when it meets the condition in the state reached. -/
theorem guarded_snoc {as : List A} {a : A} :
    Guarded step ok s (as ++ [a]) ↔ Guarded step ok s as ∧ ok (run step s as) a := by
  simp only [guarded_append, guarded_cons, guarded_nil, and_true]

/-- One more action adds the state it leads to. -/
theorem throughout_snoc {P : S → Prop} {as : List A} {a : A} :
    Throughout step P s (as ++ [a]) ↔ Throughout step P s as ∧ P (run step s (as ++ [a])) := by
  constructor
  · intro h
    refine ⟨fun k => ?_, ?_⟩
    · have hk := h (min k as.length)
      rw [List.take_append_of_le_length (Nat.min_le_right _ _)] at hk
      rwa [← List.take_eq_take_min] at hk
    · have hk := h (as ++ [a]).length
      rwa [List.take_length] at hk
  · rintro ⟨h, hlast⟩ k
    rcases Nat.lt_or_ge as.length k with hk | hk
    · rw [List.take_of_length_le (by rw [List.length_append, List.length_singleton]; exact hk)]
      exact hlast
    · rw [List.take_append_of_le_length hk]
      exact h k

/-- What holds throughout a run holds in the state it leads to. -/
theorem Throughout.last {P : S → Prop} {as : List A} (h : Throughout step P s as) :
    P (run step s as) := by
  have := h as.length
  rwa [List.take_length] at this

/-- The states of a run are the one it starts in and those of the rest. -/
theorem throughout_cons {P : S → Prop} {a : A} {as : List A} :
    Throughout step P s (a :: as) ↔ P s ∧ Throughout step P (step s a) as := by
  constructor
  · intro h
    exact ⟨h 0, fun k => h (k + 1)⟩
  · rintro ⟨hs, h⟩ k
    cases k with
    | zero => exact hs
    | succ k => exact h k

/-- A condition on the actions alone joins the guard. -/
theorem Guarded.and_forall {P : A → Prop} : ∀ {s : S} {as : List A}, Guarded step ok s as →
    (∀ a ∈ as, P a) → Guarded step (fun s a => ok s a ∧ P a) s as
  | _, [], _, _ => trivial
  | _, a :: _, hg, hP => ⟨⟨hg.1, hP a List.mem_cons_self⟩,
      hg.2.and_forall fun b hb => hP b (List.mem_cons_of_mem _ hb)⟩

/-- **The run rule for guarded runs**: what holds at the start and is kept by every guarded step
holds at the end of every guarded run. -/
theorem Guarded.invariant {Inv : S → Prop} (hstep : ∀ s a, ok s a → Inv s → Inv (step s a))
    {s : S} {as : List A} (hs : Inv s) (hg : Guarded step ok s as) : Inv (run step s as) := by
  induction as generalizing s with
  | nil => exact hs
  | cons a as ih => exact ih (hstep s a hg.1 hs) hg.2

/-- What guarded steps keep holds in every state of a guarded run. -/
theorem Guarded.throughout {P Inv : S → Prop} (hP : ∀ s, Inv s → P s)
    (hstep : ∀ s a, ok s a → Inv s → Inv (step s a)) {s : S} {as : List A} (hs : Inv s)
    (hg : Guarded step ok s as) : Throughout step P s as := by
  induction as generalizing s with
  | nil => exact fun k => by rw [List.take_nil]; exact hP s hs
  | cons a as ih => exact throughout_cons.mpr ⟨hP s hs, ih (hstep s a hg.1 hs) hg.2⟩

/-- **The guard is exact** where each step that breaks it leads outside the property: a run that
stays inside was guarded. -/
theorem Throughout.guarded {P : S → Prop} (hbreak : ∀ s a, P (step s a) → ok s a) {s : S}
    {as : List A} (h : Throughout step P s as) : Guarded step ok s as := by
  induction as generalizing s with
  | nil => trivial
  | cons a as ih =>
    obtain ⟨_, htail⟩ := throughout_cons.mp h
    exact ⟨hbreak s a (htail 0), ih htail⟩

/-- **The run rule**: what holds at the start and is kept by every step holds at the end of every
run. -/
theorem run_invariant {Inv : S → Prop} (hstep : ∀ s a, Inv s → Inv (step s a))
    {s : S} (hs : Inv s) (as : List A) : Inv (run step s as) := by
  induction as generalizing s with
  | nil => exact hs
  | cons a as ih => exact ih (hstep s a hs)

instance decidableGuarded [∀ s a, Decidable (ok s a)] :
    ∀ (s : S) (as : List A), Decidable (Guarded step ok s as)
  | _, [] => isTrue trivial
  | s, a :: as =>
    have := decidableGuarded (step s a) as
    inferInstanceAs (Decidable (ok s a ∧ Guarded step ok (step s a) as))

end Laws

end TinyProbe.Run
