import TinyProbe.Base.Time
import TinyProbe.Lib.Run
import TinyProbe.Lib.Trace
import Mathlib.Data.List.DropRight

/-!
# The agent's report loop

`Runner.Run`: collect, send, wait, over and over, with delays that grow from failure to failure.
`Collect`, `Send` and the timer take the time they take, and the context may be done at any moment.
`sent` stands for the return of `Send`, whatever became of its request.

**What a run of it comes to** (`Runner.paced_run`): the delay before an attempt is that of the
number of failures since the last success, attempts begin at least five seconds apart, and `Run`
returns for its context and for nothing else.

Nothing is said of how soon an attempt follows: that is up to the timers.
-/

namespace TinyProbe.Agent

open Run TinyProbe.Trace

/-- `retryDelays`. -/
def retryDelays : List Duration :=
  [Time.seconds 5, Time.seconds 10, Time.seconds 20, Time.seconds 40, Time.seconds 60]

/-- The errors `Run` returns. -/
inductive RunError where
  | collectorRequired
  | clientRequired
  /-- `ctx.Err()`. -/
  | context
deriving DecidableEq

/-- Where `Run` is. `since` is when this turn of the loop began. -/
inductive RunPhase (R : Type) where
  | checking (since : Time)
  | collecting (since : Time)
  | sending (since : Time) (report : R)
  /-- In `wait`, with the timer set to `due`. -/
  | waiting (due : Time)
  | returned (err : RunError)
  /-- `retryDelays[backoff]` was out of range. -/
  | panicked
deriving DecidableEq

/-- A turn of the loop that has come to its delay. -/
structure Attempt where
  began : Time
  ended : Time
  ok : Bool
deriving DecidableEq

/-- `Run`, its context and the clock. `attempts` is a record that no step looks at. -/
structure Runner (R : Type) where
  now : Time
  cancelled : Bool
  backoff : Nat
  phase : RunPhase R
  attempts : List Attempt

namespace Runner

variable {R : Type}

inductive Action (R : Type) where
  | wait (ns : Nat)
  /-- The context is done. -/
  | cancel
  | check
  | collected (result : Option R)
  | sent (ok : Bool)
  /-- `waitForContext` selects the timer. -/
  | fire
  /-- `waitForContext` selects the context. -/
  | quit

/-- The call of `Run`, with a collector and a client or without. -/
def begin (now : Time) (collector client : Bool) : Runner R :=
  { now, cancelled := false, backoff := 0, attempts := []
    phase :=
      if collector = false then .returned .collectorRequired
      else if client = false then .returned .clientRequired
      else .checking now }

/-- What follows an attempt. -/
def finish (s : Runner R) (since : Time) (ok : Bool) : Runner R :=
  match retryDelays[s.backoff]? with
  | none => { s with phase := .panicked }
  | some delay =>
    { s with
      phase := .waiting (s.now.add (if ok then Time.seconds 5 else delay))
      backoff :=
        if ok then 0
        else if s.backoff < retryDelays.length - 1 then s.backoff + 1
        else s.backoff
      attempts := s.attempts ++ [⟨since, s.now, ok⟩] }

def step (s : Runner R) : Action R → Runner R
  | .wait ns => { s with now := ⟨s.now.ns + ns⟩ }
  | .cancel => { s with cancelled := true }
  | .check =>
    match s.phase with
    | .checking since =>
      if s.cancelled then { s with phase := .returned .context }
      else { s with phase := .collecting since }
    | _ => s
  | .collected result =>
    match s.phase with
    | .collecting since =>
      match result with
      | none => s.finish since false
      | some report => { s with phase := .sending since report }
    | _ => s
  | .sent ok =>
    match s.phase with
    | .sending since _ => s.finish since ok
    | _ => s
  | .fire =>
    match s.phase with
    | .waiting due => if due.ns ≤ s.now.ns then { s with phase := .checking s.now } else s
    | _ => s
  | .quit =>
    match s.phase with
    | .waiting _ => if s.cancelled then { s with phase := .returned .context } else s
    | _ => s

end Runner

/-! ## The delays -/

/-- The failures since the last success. -/
def failures (attempts : List Attempt) : Nat := (attempts.rtakeWhile fun a => !a.ok).length

/-- The delay after so many failures. -/
def pause : Nat → Duration
  | 0 => Time.seconds 5
  | n + 1 => retryDelays.getD (min n (retryDelays.length - 1)) 0

/-- Before the first attempt none has failed. -/
@[simp] theorem failures_nil : failures [] = 0 := rfl

/-- A successful attempt ends the series of failures. -/
theorem failures_snoc (attempts : List Attempt) (a : Attempt) :
    failures (attempts ++ [a]) = if a.ok then 0 else failures attempts + 1 := by
  rw [failures, List.rtakeWhile_concat]
  cases a.ok with
  | true => rfl
  | false => simp [failures]

/-- A delay is one of five. -/
theorem pause_cases (n : Nat) :
    (pause n).toInt = 5000000000 ∨ (pause n).toInt = 10000000000 ∨
      (pause n).toInt = 20000000000 ∨ (pause n).toInt = 40000000000 ∨
      (pause n).toInt = 60000000000 := by
  match n with
  | 0 => decide
  | 1 => decide
  | 2 => decide
  | 3 => decide
  | 4 => decide
  | n + 5 =>
    have hmin : min (n + 4) (retryDelays.length - 1) = 4 := Nat.min_eq_right (Nat.le_add_left 4 n)
    rw [pause, hmin]
    decide

private theorem five_le_pause (n : Nat) : 5000000000 ≤ (pause n).toInt := by
  have := pause_cases n
  omega

namespace Runner

variable {R : Type}

/-- An attempt began when the delay after the one before it was over, and ended after that. -/
def Paced (pre : List Attempt) (a : Attempt) : Prop :=
  a.began.ns ≤ a.ended.ns ∧
    ∀ b, pre.getLast? = some b → b.ended.ns + (pause (failures pre)).toInt ≤ a.began.ns

/-- The delay is over at an instant. -/
def Rested (attempts : List Attempt) (at' : Time) : Prop :=
  ∀ b, attempts.getLast? = some b → b.ended.ns + (pause (failures attempts)).toInt ≤ at'.ns

/-- Why `Run` returns an error. -/
def Reason (collector client cancelled : Bool) : RunError → Prop
  | .collectorRequired => collector = false
  | .clientRequired => collector = true ∧ client = false
  | .context => cancelled = true

section Laws

variable {collector client : Bool} {s : Runner R}

/-- The phase fits the attempts so far. -/
def Fits (collector client : Bool) (s : Runner R) : Prop :=
  match s.phase with
  | .checking since | .collecting since | .sending since _ =>
    since.ns ≤ s.now.ns ∧ Rested s.attempts since
  | .waiting due =>
    ∃ b, s.attempts.getLast? = some b ∧ due = b.ended.add (pause (failures s.attempts))
  | .returned err => Reason collector client s.cancelled err
  | .panicked => False

structure Inv (collector client : Bool) (s : Runner R) : Prop where
  backoff : s.backoff = min (failures s.attempts) (retryDelays.length - 1)
  paced : Justified Paced s.attempts
  fits : s.Fits collector client

/-- A runner begins without attempts, and its first may begin at once. -/
theorem inv_begin (now : Time) (collector client : Bool) :
    Inv collector client (begin now collector client : Runner R) where
  backoff := rfl
  paced := justified_nil
  fits := by
    cases collector with
    | false => exact rfl
    | true =>
      cases client with
      | false => exact ⟨rfl, rfl⟩
      | true => exact ⟨Int.le_refl _, fun b hb => by cases hb⟩

/-- The delay that the code looks up is that of the failures there have been. -/
theorem delay_eq (h : Inv collector client s) :
    retryDelays[s.backoff]? = some (pause (failures s.attempts + 1)) := by
  rw [h.backoff, pause, List.getD_eq_getElem?_getD]
  have hlt : min (failures s.attempts) (retryDelays.length - 1) < retryDelays.length :=
    Nat.lt_of_le_of_lt (Nat.min_le_right _ _) (by decide)
  rw [List.getElem?_eq_getElem hlt, Option.getD_some]

/-- **What follows an attempt is the delay of its place.** -/
theorem finish_eq (h : Inv collector client s) (since : Time) (ok : Bool) :
    s.finish since ok =
      { s with
        phase := .waiting (s.now.add (pause (failures (s.attempts ++ [⟨since, s.now, ok⟩]))))
        backoff := min (failures (s.attempts ++ [⟨since, s.now, ok⟩])) (retryDelays.length - 1)
        attempts := s.attempts ++ [⟨since, s.now, ok⟩] } := by
  rw [finish, delay_eq h]
  dsimp only
  rw [failures_snoc]
  cases ok with
  | true => rfl
  | false =>
    simp only [Bool.false_eq_true, if_false]
    congr 1
    rw [h.backoff]
    split
    next hlt => omega
    next hle => omega

/-- An attempt that ends is followed by the pause for the failures so far. -/
theorem Inv.finish (h : Inv collector client s) {since : Time} (hsince : since.ns ≤ s.now.ns)
    (hrested : Rested s.attempts since) (ok : Bool) :
    Inv collector client (s.finish since ok) := by
  rw [finish_eq h]
  refine ⟨rfl, h.paced.snoc ⟨hsince, hrested⟩, _, List.getLast?_concat, rfl⟩

/-- Every step of the runner keeps the pauses between its attempts. -/
theorem Inv.step (h : Inv collector client s) (a : Action R) :
    Inv collector client (s.step a) := by
  have hfits := h.fits
  cases a with
  | wait ns =>
    refine ⟨h.backoff, h.paced, ?_⟩
    unfold Fits at hfits ⊢
    dsimp only [Runner.step]
    cases hphase : s.phase with
    | checking since | collecting since | sending since _ =>
      rw [hphase] at hfits
      exact ⟨Int.le_trans hfits.1 (Int.le_add_of_nonneg_right (Int.natCast_nonneg ns)), hfits.2⟩
    | _ => rw [hphase] at hfits; exact hfits
  | cancel =>
    refine ⟨h.backoff, h.paced, ?_⟩
    unfold Fits at hfits ⊢
    dsimp only [Runner.step]
    cases hphase : s.phase with
    | returned err =>
      rw [hphase] at hfits
      cases err with
      | context => exact rfl
      | _ => exact hfits
    | _ => rw [hphase] at hfits; exact hfits
  | check =>
    simp only [Runner.step]
    split
    next since hphase =>
      split
      next hcancelled => exact ⟨h.backoff, h.paced, hcancelled⟩
      next =>
        rw [Fits, hphase] at hfits
        exact ⟨h.backoff, h.paced, hfits⟩
    next => exact h
  | collected result =>
    simp only [Runner.step]
    split
    next since hphase =>
      rw [Fits, hphase] at hfits
      cases result with
      | none => exact h.finish hfits.1 hfits.2 false
      | some report => exact ⟨h.backoff, h.paced, hfits⟩
    next => exact h
  | sent ok =>
    simp only [Runner.step]
    split
    next since report hphase =>
      rw [Fits, hphase] at hfits
      exact h.finish hfits.1 hfits.2 ok
    next => exact h
  | fire =>
    simp only [Runner.step]
    split
    next due hphase =>
      split
      next hdue =>
        rw [Fits, hphase] at hfits
        obtain ⟨b, hb, rfl⟩ := hfits
        refine ⟨h.backoff, h.paced, Int.le_refl _, ?_⟩
        intro b' hb'
        cases hb.symm.trans hb'
        exact hdue
      next => exact h
    next => exact h
  | quit =>
    simp only [Runner.step]
    split
    next due hphase =>
      split
      next hcancelled => exact ⟨h.backoff, h.paced, hcancelled⟩
      next => exact h
    next => exact h

/-- So does every run, whatever the collections and the posts return. -/
theorem inv_run (now : Time) (collector client : Bool) (as : List (Action R)) :
    Inv collector client (run step (begin now collector client) as) :=
  run_invariant (fun _ a h => h.step a) (inv_begin now collector client) as

end Laws

/-- One attempt after the other. -/
def Follows (a b : Attempt) : Prop := a.began.ns + (5000000000 : Nat) ≤ b.began.ns

instance : IsTrans Attempt Follows := ⟨fun a b c hab hbc => by unfold Follows at *; omega⟩

/-- **An agent keeps its pace**, in every run of `Run`: `retryDelays` is never indexed out of its
range, `Run` returns for its context or for what it was not given, each attempt began when the delay
of the failures before it was over, the timer is set to that delay after the last one, and a window
holds one attempt more than the times five seconds fit into it. -/
theorem paced_run (now : Time) (collector client : Bool) (as : List (Action R)) :
    let s := run step (begin now collector client : Runner R) as
    s.phase ≠ .panicked ∧
      (∀ err, s.phase = .returned err → Reason collector client s.cancelled err) ∧
      Justified Paced s.attempts ∧
      (∀ due, s.phase = .waiting due → ∃ b, s.attempts.getLast? = some b ∧
        due = b.ended.add (pause (failures s.attempts))) ∧
      ∀ (t : Int) (T : Nat),
        s.attempts.countP (fun a => decide (t ≤ a.began.ns ∧ a.began.ns < t + T)) ≤
          T / 5000000000 + 1 := by
  intro s
  have hinv : Inv collector client s := inv_run now collector client as
  have hfits := hinv.fits
  unfold Fits at hfits
  refine ⟨?_, ?_, hinv.paced, ?_, ?_⟩
  · intro hphase
    rw [hphase] at hfits
    exact hfits
  · intro err hphase
    rw [hphase] at hfits
    exact hfits
  · intro due hphase
    rw [hphase] at hfits
    exact hfits
  · apply countP_window (by decide)
    refine hinv.paced.pairwise_of_last (R := Follows) ?_
    intro pre a hpre ha b hb
    obtain ⟨pre, rfl⟩ := List.getLast?_eq_some_iff.mp hb
    have hended := (hpre.last).1
    have hpause := five_le_pause (failures (pre ++ [b]))
    have hbegan := ha.2 b hb
    show b.began.ns + (5000000000 : Nat) ≤ a.began.ns
    omega

end Runner

end TinyProbe.Agent
