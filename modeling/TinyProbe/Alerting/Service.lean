import TinyProbe.Alerting.Evaluator
import TinyProbe.Lib.Run

/-!
# The evaluator beside the rule handlers

One goroutine evaluates events while the API creates and updates rules. The two meet in the tables
only, so a run interleaves three kinds of steps: a write of the API, the start of an `EvaluateNow`
call (which lists the rules, and keeps the copies it was given), and one turn of its loop. A call
starts when the one before it has gone through its list.

`run_call` ties the steps to the function: the start of a call followed by its turns does what
`evaluateNow` does.
-/

namespace TinyProbe.Alerting

open TinyProbe.Run

variable {F : Type} [Float64 F]

/-- The tables, and the turns that the current call has still to take. -/
structure Service (F : Type) where
  db : Database F
  todo : List (Live.Event F × Rule F)

namespace Service

/-- One step. The flags say which store calls fail. -/
inductive Action (F : Type) where
  | createRule (now : Time) (rule : Rule F) (fails : Bool)
  | updateRule (now : Time) (rule : Rule F) (fails stateFails : Bool)
  | start (event : Live.Event F) (listFails : Bool)
  | turn (turn : Turn)

/-- Freshly migrated tables and no call. -/
def initial : Service F := { db := .empty, todo := [] }

def step (s : Service F) : Action F → Service F
  | .createRule now rule fails => { s with db := (Repository.createRule s.db now rule fails).2 }
  | .updateRule now rule fails stateFails =>
    { s with db := (Repository.updateRule s.db now rule fails stateFails).2 }
  | .start event listFails =>
    match s.todo with
    | [] => { s with todo := (listedRules event listFails s.db).map (event, ·) }
    | _ :: _ => s
  | .turn turn =>
    match s.todo with
    | [] => s
    | (event, rule) :: todo => { db := (evaluateRule event rule turn s.db).2, todo }

/-! ## The steps of a call -/

theorem run_turns (event : Live.Event F) (turns : Int → Turn) (rules : List (Rule F))
    (db : Database F) :
    run step { db, todo := rules.map (event, ·) }
        (rules.map fun rule => Action.turn (turns rule.id)) =
      { db := (evaluateRules event turns rules db).2, todo := [] } := by
  induction rules generalizing db with
  | nil => rfl
  | cons rule rules ih => exact ih _

/-- **A call is its steps.** -/
theorem run_call {s : Service F} (hs : s.todo = []) (event : Live.Event F) (listFails : Bool)
    (turns : Int → Turn) :
    run step s (.start event listFails ::
        (listedRules event listFails s.db).map fun rule => .turn (turns rule.id)) =
      { db := (evaluateNow event listFails turns s.db).2, todo := [] } := by
  have hstart : step s (.start event listFails) =
      { s with todo := (listedRules event listFails s.db).map (event, ·) } := by
    simp only [step, hs]
  rw [run_cons, hstart]
  exact run_turns event turns _ s.db

theorem scans_step (s : Service F) (a : Action F) (h : Repository.Scans s.db) :
    Repository.Scans (step s a).db := by
  cases a with
  | createRule now rule fails => exact h.createRule rule fails
  | updateRule now rule fails stateFails => exact h.updateRule rule fails stateFails
  | start event listFails => simp only [step]; split <;> exact h
  | turn turn =>
    simp only [step]
    split
    next => exact h
    next => exact scans_evaluateRule h

/-- **Every row of every run reads back.** -/
theorem scans_run (as : List (Action F)) : Repository.Scans (run step initial as).db :=
  run_invariant scans_step Repository.scans_empty as

/-! ## What a step can do -/

/-- The step takes the turn of a rule and its store calls succeed. -/
def Takes (s : Service F) (event : Live.Event F) (rule : Rule F) (turn : Turn) : Action F → Prop
  | .turn t => t = turn ∧ s.todo.head? = some (event, rule) ∧
      (event.type = .offline → rule.metric = .offline)
  | _ => False

/-- **A step writes the state and the log of a rule only through a turn of that rule.** -/
theorem step_cases (s : Service F) (a : Action F) (id : Int) :
    ((step s a).db.stateOf id = s.db.stateOf id ∧ (step s a).db.eventsOf id = s.db.eventsOf id) ∨
      ∃ event rule turn, Takes s event rule turn a ∧ rule.id = id ∧
        (step s a).db = advanced event rule turn s.db := by
  cases a with
  | createRule now rule fails =>
    apply Or.inl
    rcases @Repository.createRule_db F s.db now rule fails with h | ⟨_, h⟩
    · simp only [step, h, and_self]
    · simp only [step, h]
      exact ⟨rfl, rfl⟩
  | updateRule now rule fails stateFails =>
    apply Or.inl
    rcases @Repository.updateRule_db F s.db now rule fails stateFails with h | ⟨_, h⟩
    · simp only [step, h, and_self]
    · simp only [step, h]
      exact ⟨rfl, rfl⟩
  | start event listFails =>
    apply Or.inl
    simp only [step]
    split <;> exact ⟨rfl, rfl⟩
  | turn turn =>
    cases htodo : s.todo with
    | nil => exact Or.inl (by simp only [step, htodo, and_self])
    | cons head todo =>
      obtain ⟨event, rule⟩ := head
      have hstep : (step s (.turn turn)).db = (evaluateRule event rule turn s.db).2 := by
        simp only [step, htodo]
      rcases evaluateRule_cases event rule turn s.db with h | ⟨hguard, h⟩
      · apply Or.inl
        rw [hstep, h]
        exact ⟨rfl, rfl⟩
      · rw [h] at hstep
        by_cases hid : rule.id = id
        · refine Or.inr ⟨event, rule, turn, ⟨rfl, ?_, hguard⟩, hid, hstep⟩
          rw [htodo, List.head?_cons]
        · apply Or.inl
          rw [hstep]
          exact ⟨stateOf_advanced_ne (Ne.symm hid), eventsOf_advanced_ne (Ne.symm hid)⟩

/-- Only turns write states and take turns off the call. -/
theorem step_of_not_turn {s : Service F} {a : Action F} (h : ∀ turn, a ≠ .turn turn) (id : Int) :
    (step s a).db.stateOf id = s.db.stateOf id ∧ ∀ q ∈ s.todo, q ∈ (step s a).todo := by
  have hst : (step s a).db.stateOf id = s.db.stateOf id := by
    rcases step_cases s a id with ⟨hst, _⟩ | ⟨_, _, turn, htakes, _⟩
    · exact hst
    · cases a with
      | turn t => exact absurd rfl (h t)
      | _ => exact htakes.elim
  refine ⟨hst, fun q hq => ?_⟩
  cases a with
  | start event listFails =>
    simp only [step]
    split
    next hnil => rw [hnil] at hq; cases hq
    next => exact hq
  | turn t => exact absurd rfl (h t)
  | _ => exact hq

/-- **A step leaves the row of a rule**, unless it is an `UpdateRule` that writes it. -/
theorem rule?_step (s : Service F) (a : Action F) {id : Int} {row : Rule F}
    (h : s.db.rule? id = some row) :
    (step s a).db.rule? id = some row ∨ ∃ now rule fails stateFails,
      a = .updateRule now rule fails stateFails ∧ rule.id = id ∧
        Repository.updates s.db rule fails = true ∧
        (step s a).db.rule? id = some (Repository.updatedRow now rule row) := by
  cases a with
  | createRule now rule fails =>
    apply Or.inl
    rcases @Repository.createRule_db F s.db now rule fails with heq | ⟨_, heq⟩
    · simp only [step, heq, h]
    · simp only [step, heq]
      exact Database.rule?_insertRule_of_some h _
  | updateRule now rule fails stateFails =>
    rcases @Repository.updateRule_db F s.db now rule fails stateFails with heq | ⟨hupdates, heq⟩
    · exact Or.inl (by simp only [step, heq, h])
    · simp only [step, heq, Database.rule?_replaceRule, h, Option.map_some]
      split
      next hid => exact Or.inr ⟨now, rule, fails, stateFails, rfl,
        hid.symm.trans (Database.rule?_id h), hupdates, rfl⟩
      next => exact Or.inl rfl
  | start event listFails => exact Or.inl (by simp only [step]; split <;> exact h)
  | turn turn =>
    apply Or.inl
    simp only [step]
    split
    next => exact h
    next => exact (Database.rule?_congr rules_evaluateRule id).trans h

/-- A step leaves a suffix of the turns to take, or lists the rows of a server. -/
theorem todo_step (s : Service F) (a : Action F) :
    ((step s a).todo <:+ s.todo) ∨
      (s.todo = [] ∧ (step s a).db = s.db ∧ ∃ event listFails, a = .start event listFails ∧
        (step s a).todo = (listedRules event listFails s.db).map (event, ·)) := by
  cases a with
  | createRule now rule fails => exact Or.inl (List.suffix_refl _)
  | updateRule now rule fails stateFails => exact Or.inl (List.suffix_refl _)
  | start event listFails =>
    cases htodo : s.todo with
    | nil => exact Or.inr ⟨rfl, by simp only [step, htodo], event, listFails, rfl,
        by simp only [step, htodo]⟩
    | cons head todo => exact Or.inl (by simp only [step, htodo, List.suffix_refl])
  | turn turn =>
    apply Or.inl
    cases htodo : s.todo with
    | nil => simp only [step, htodo, List.suffix_refl]
    | cons head todo => simp only [step, htodo, List.suffix_cons]

/-! ## Steps of concrete runs -/

/-- A turn at `t` seconds whose store calls succeed; there is no webhook. -/
def okAt (t : Int) : Turn :=
  { getStateFails := false, saveFails := false, now := .ofUnix t, savedAt := .ofUnix t
    webhook := .error .notFound }

def turnAt (t : Int) : Action F := .turn (okAt t)

/-- An update or, of a server that is not online, an offline event with a CPU reading. -/
def eventOn (serverID : Int) (online : Bool) (cpu : F) : Live.Event F :=
  { type := if online then .updated else .offline
    snapshot := { serverID, serverName := "", online, lastReceivedAt := .zero, sourceIP := ""
                  report := .ofCPU cpu } }

/-- The start of a call on such an event. -/
def startOn (serverID : Int) (online : Bool) (cpu : F) : Action F :=
  .start (eventOn serverID online cpu) false

/-- An enabled rule with no repeat. -/
def ruleOn (serverID : Int) (metric : Metric) (threshold : F) (durationSeconds : Int) : Rule F :=
  { id := 1, serverID, metric, operator := .greaterThan, threshold, durationSeconds
    repeatSeconds := 0, enabled := true, createdAt := .zero, updatedAt := .zero }

end Service

end TinyProbe.Alerting
