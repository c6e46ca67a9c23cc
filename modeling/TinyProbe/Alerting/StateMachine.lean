import TinyProbe.Alerting.Model

/-!
# The alert state machine

`evaluate` is `Evaluate` of `state_machine.go`, branch by branch. Later modules never unfold it:
they use what it does from each kind of status (the lemmas of the last two sections), which say of
the new state and of the notification all that the branches taken there can do.
-/

namespace TinyProbe.Alerting

variable {F : Type}

/-- `EvaluationInput`. -/
structure EvaluationInput (F : Type) where
  state : State F
  breached : Bool
  currentValue : F
  duration : Duration
  repeatInterval : Duration
  now : Time

/-- `EvaluationResult`. -/
structure EvaluationResult (F : Type) where
  state : State F
  notify : Bool
deriving DecidableEq

def finishEvaluation (state : State F) (now : Time) (notify : Bool) : EvaluationResult F :=
  { state := { state with updatedAt := now }, notify }

/-- The repeat test of the firing branch:
`state.LastNotifiedAt == nil || now.Sub(*state.LastNotifiedAt) >= input.RepeatInterval`. -/
def repeatDue (lastNotifiedAt : Option Time) (now : Time) (interval : Duration) : Bool :=
  match lastNotifiedAt with
  | none => true
  | some last => interval ≤ now.sub last

/-- `Evaluate`. -/
def evaluate (input : EvaluationInput F) : EvaluationResult F :=
  let now := input.now
  let state :=
    if validStatus input.state.status then input.state
    else { input.state with status := .normal }
  let state := { state with lastValue := some input.currentValue }
  match state.status with
  | .normal =>
    if !input.breached then finishEvaluation state now false
    else if input.duration ≤ 0 then
      finishEvaluation { state with
        status := .firing, pendingSince := none
        firingSince := some now, lastNotifiedAt := some now } now true
    else
      finishEvaluation { state with
        status := .pending, pendingSince := some now, firingSince := none } now false
  | .pending =>
    if !input.breached then
      finishEvaluation { state with
        status := .normal, pendingSince := none, firingSince := none } now false
    else
      match state.pendingSince with
      | none => finishEvaluation { state with pendingSince := some now } now false
      | some since =>
        if now.sub since < input.duration then finishEvaluation state now false
        else
          finishEvaluation { state with
            status := .firing, firingSince := some now, lastNotifiedAt := some now } now true
  | .firing =>
    if !input.breached then
      finishEvaluation { state with
        status := .recovered, pendingSince := none, lastNotifiedAt := some now } now true
    else
      let state := { state with firingSince := some (state.firingSince.getD now) }
      if 0 < input.repeatInterval && repeatDue state.lastNotifiedAt now input.repeatInterval then
        finishEvaluation { state with lastNotifiedAt := some now } now true
      else finishEvaluation state now false
  | .recovered =>
    if !input.breached then
      finishEvaluation { state with
        status := .normal, pendingSince := none, firingSince := none } now false
    else
      let state := { state with firingSince := none, lastNotifiedAt := none }
      if input.duration ≤ 0 then
        finishEvaluation { state with
          status := .firing, pendingSince := none
          firingSince := some now, lastNotifiedAt := some now } now true
      else
        finishEvaluation { state with status := .pending, pendingSince := some now } now false
  | .other _ => finishEvaluation { state with status := .normal } now false

/-- Neither waiting for a duration nor firing: the statuses from which a breach opens an
episode. -/
def Status.idle : Status → Bool
  | .pending => false
  | .firing => false
  | _ => true

/-! ## What is common to all branches -/

/-- The rule of a state never changes. -/
@[simp] theorem evaluate_ruleID (input : EvaluationInput F) :
    (evaluate input).state.ruleID = input.state.ruleID := by
  simp only [evaluate, finishEvaluation]
  grind

/-- Every result carries a known status. -/
theorem validStatus_evaluate (input : EvaluationInput F) :
    validStatus (evaluate input).state.status = true := by
  simp only [evaluate, finishEvaluation]
  grind [validStatus]

/-- Every evaluation is stamped with its clock reading. -/
@[simp] theorem evaluate_updatedAt (input : EvaluationInput F) :
    (evaluate input).state.updatedAt = input.now := by
  simp only [evaluate, finishEvaluation]
  grind

/-- Only firing and recovered results notify. -/
theorem status_of_notify {input : EvaluationInput F} (h : (evaluate input).notify = true) :
    (evaluate input).state.status = .firing ∨ (evaluate input).state.status = .recovered := by
  revert h
  simp only [evaluate, finishEvaluation]
  grind [validStatus]

/-! ## From an idle status -/

section Idle

variable {input : EvaluationInput F} (hidle : input.state.status.idle = true)
include hidle

theorem evaluate_idle_calm (hb : input.breached = false) :
    (evaluate input).state.status = .normal ∧ (evaluate input).notify = false := by
  cases hs : input.state.status <;>
    simp_all [evaluate, finishEvaluation, validStatus, Status.idle]

/-- Without a duration the first breach fires. -/
theorem evaluate_idle_fire (hb : input.breached = true) (hd : input.duration ≤ 0) :
    (evaluate input).state.status = .firing ∧ (evaluate input).notify = true ∧
      (evaluate input).state.firingSince = some input.now ∧
      (evaluate input).state.lastNotifiedAt = some input.now := by
  cases hs : input.state.status <;>
    simp_all [evaluate, finishEvaluation, validStatus, Status.idle]

/-- With one, the first breach starts the wait. -/
theorem evaluate_idle_wait (hb : input.breached = true) (hd : 0 < input.duration) :
    (evaluate input).state.status = .pending ∧ (evaluate input).notify = false ∧
      (evaluate input).state.pendingSince = some input.now := by
  have hd' : ¬ input.duration ≤ 0 := Int64.not_le.mpr hd
  cases hs : input.state.status with
  | pending => simp only [hs, Status.idle, Bool.false_eq_true] at hidle
  | firing => simp only [hs, Status.idle, Bool.false_eq_true] at hidle
  | _ => simp [evaluate, finishEvaluation, validStatus, hs, hb, hd']

end Idle

/-! ## From pending -/

section Pending

variable {input : EvaluationInput F} (hs : input.state.status = .pending)
include hs

theorem evaluate_pending_calm (hb : input.breached = false) :
    (evaluate input).state.status = .normal ∧ (evaluate input).notify = false := by
  simp [evaluate, finishEvaluation, validStatus, hs, hb]

theorem evaluate_pending_wait (hb : input.breached = true) {since : Time}
    (hp : input.state.pendingSince = some since) (hd : input.now.sub since < input.duration) :
    (evaluate input).state.status = .pending ∧ (evaluate input).notify = false ∧
      (evaluate input).state.pendingSince = some since := by
  simp [evaluate, finishEvaluation, validStatus, hs, hb, hp, hd]

theorem evaluate_pending_fire (hb : input.breached = true) {since : Time}
    (hp : input.state.pendingSince = some since) (hd : ¬ input.now.sub since < input.duration) :
    (evaluate input).state.status = .firing ∧ (evaluate input).notify = true ∧
      (evaluate input).state.firingSince = some input.now ∧
      (evaluate input).state.lastNotifiedAt = some input.now := by
  simp [evaluate, finishEvaluation, validStatus, hs, hb, hp, if_neg hd]

end Pending

/-! ## From firing -/

section Firing

variable {input : EvaluationInput F} (hs : input.state.status = .firing)
include hs

theorem evaluate_firing_calm (hb : input.breached = false) :
    (evaluate input).state.status = .recovered ∧ (evaluate input).notify = true ∧
      (evaluate input).state.firingSince = input.state.firingSince := by
  simp [evaluate, finishEvaluation, validStatus, hs, hb]

/-- A breach while firing notifies exactly when the repeat is on and due. -/
theorem evaluate_firing_breached (hb : input.breached = true) :
    (evaluate input).state.status = .firing ∧
      (evaluate input).state.firingSince = some (input.state.firingSince.getD input.now) ∧
      ((evaluate input).notify = true ↔
        0 < input.repeatInterval ∧
          repeatDue input.state.lastNotifiedAt input.now input.repeatInterval = true) ∧
      (evaluate input).state.lastNotifiedAt =
        if (evaluate input).notify then some input.now else input.state.lastNotifiedAt := by
  simp only [evaluate, finishEvaluation, validStatus, hs, hb, Bool.not_true, Bool.false_eq_true,
    ↓reduceIte]
  split
  next h =>
    rw [Bool.and_eq_true, decide_eq_true_eq] at h
    exact ⟨rfl, rfl, ⟨fun _ => h, fun _ => rfl⟩, rfl⟩
  next h =>
    rw [Bool.and_eq_true, decide_eq_true_eq] at h
    exact ⟨rfl, rfl, ⟨nofun, fun hr => absurd hr h⟩, rfl⟩

end Firing

/-! ## Summaries -/

/-- Whatever the status was, a calm evaluation neither waits nor fires. -/
theorem evaluate_calm {input : EvaluationInput F} (hb : input.breached = false) :
    (evaluate input).state.status.idle = true := by
  simp only [evaluate, finishEvaluation]
  grind [validStatus, Status.idle]

/-- **Outside firing, a notification opens an episode**: it comes with the firing status and the
episode's start, and without one the status is not firing. -/
theorem evaluate_not_firing (input : EvaluationInput F) (hs : input.state.status ≠ .firing) :
    ((evaluate input).notify = true ∧ (evaluate input).state.status = .firing ∧
        (evaluate input).state.firingSince = some input.now ∧
        (evaluate input).state.lastNotifiedAt = some input.now ∧ input.breached = true) ∨
      ((evaluate input).notify = false ∧ (evaluate input).state.status ≠ .firing) := by
  simp only [evaluate, finishEvaluation]
  grind [validStatus]

/-- **Inside firing, the episode's start is kept**: a breach stays in the episode and a calm
evaluation closes it with a notification. -/
theorem evaluate_firing (input : EvaluationInput F) (hs : input.state.status = .firing) :
    (input.breached = true ∧ (evaluate input).state.status = .firing ∧
        (evaluate input).state.firingSince = some (input.state.firingSince.getD input.now) ∧
        ((evaluate input).notify = true → 0 < input.repeatInterval)) ∨
      (input.breached = false ∧ (evaluate input).state.status = .recovered ∧
        (evaluate input).state.firingSince = input.state.firingSince ∧
        (evaluate input).notify = true) := by
  cases hb : input.breached with
  | false =>
    obtain ⟨hst, hn, hf⟩ := evaluate_firing_calm hs hb
    exact Or.inr ⟨rfl, hst, hf, hn⟩
  | true =>
    obtain ⟨hst, hf, hn, _⟩ := evaluate_firing_breached hs hb
    exact Or.inl ⟨rfl, hst, hf, fun h => (hn.mp h).1⟩

/-- **A pending result comes from a breach**, and waits from now on or from where it did. -/
theorem evaluate_pending (input : EvaluationInput F)
    (h : (evaluate input).state.status = .pending) :
    input.breached = true ∧ ((evaluate input).state.pendingSince = some input.now ∨
      (input.state.status = .pending ∧
        (evaluate input).state.pendingSince = input.state.pendingSince)) := by
  revert h
  simp only [evaluate, finishEvaluation]
  grind [validStatus]

/-- **An episode opens on a breach**, at once without a duration and else from a pending state that
has waited for it. -/
theorem evaluate_opens (input : EvaluationInput F) (hs : input.state.status ≠ .firing)
    (h : (evaluate input).state.status = .firing) :
    input.breached = true ∧ (input.duration ≤ 0 ∨ (input.state.status = .pending ∧
      ∃ since, input.state.pendingSince = some since ∧ ¬ input.now.sub since < input.duration)) := by
  revert h
  simp only [evaluate, finishEvaluation]
  grind [validStatus]

end TinyProbe.Alerting
