import TinyProbe.Alerting.StateMachine
import TinyProbe.Alerting.Metrics
import TinyProbe.Alerting.Repository

/-!
# The evaluator

`EvaluateNow` lists the enabled rules of an event's server and takes each through one turn of a
loop: read the state, evaluate, save the new state with the event of a notification, enqueue the
delivery. What a turn meets outside the program is a `Turn`: whether its two store calls fail, its
clock readings, and what `GetWebhook` answers. A call of `EvaluateNow` is given a turn for each
rule, so quantifying over these functions quantifies over every pattern of failures.

`evaluateRule_cases` is the only place where a turn is unfolded: it either leaves the tables alone
or saves what `Evaluate` returned for the rule's persisted state.
-/

namespace TinyProbe.Alerting

open Live

variable {F : Type}

/-- `WebhookConfig`. -/
structure WebhookConfig where
  url : String
  headers : Map String String
  bodyTemplate : String
  enabled : Bool
  createdAt : Time
  updatedAt : Time
deriving DecidableEq

/-- `TemplateData`. -/
structure TemplateData (F : Type) where
  eventID : Int
  serverID : Int
  serverName : String
  metric : Metric
  status : Status
  currentValue : F
  threshold : F
  startedAt : Time
  endedAt : Option Time
  detailURL : String
deriving DecidableEq

/-- `DeliveryJob`, less the channel that only the webhook test waits on. -/
structure DeliveryJob (F : Type) where
  event : Event F
  config : WebhookConfig
  data : TemplateData F
  isTest : Bool
deriving DecidableEq

/-- What one turn of the rule loop meets outside the program. -/
structure Turn where
  getStateFails : Bool
  saveFails : Bool
  now : Time
  savedAt : Time
  webhook : Except RepositoryError WebhookConfig

/-- `durationForRule`. -/
def durationForRule (rule : Rule F) : Duration :=
  if rule.metric = .offline then 0 else Time.seconds rule.durationSeconds

/-- `eventFor`. The id and the creation time are the zero values the repository replaces. -/
def eventFor (rule : Rule F) (snapshot : Snapshot F) (state : State F) (value : F) : Event F :=
  { id := 0, ruleID := rule.id, serverID := snapshot.serverID, status := state.status
    currentValue := some value, threshold := some rule.threshold
    startedAt := state.firingSince.getD state.updatedAt
    endedAt := if state.status = .recovered then some state.updatedAt else none
    createdAt := .zero }

section Evaluator

variable [Float64 F]

/-- `enqueueDelivery`: the job it hands to `Enqueue`. -/
def enqueueDelivery (webhook : Except RepositoryError WebhookConfig) (event : Event F)
    (snapshot : Snapshot F) (rule : Rule F) : Option (DeliveryJob F) :=
  match webhook with
  | .error _ => none
  | .ok config =>
    if config.enabled then
      some
        { event, config, isTest := false
          data :=
            { eventID := event.id, serverID := event.serverID, serverName := snapshot.serverName
              metric := rule.metric, status := event.status
              currentValue := event.currentValue.getD (Float64.ofNat 0)
              threshold := event.threshold.getD rule.threshold
              startedAt := event.startedAt, endedAt := event.endedAt
              detailURL := "/servers/" ++ toString event.serverID } }
    else none

/-- The argument of `Evaluate` in a turn that read `state`. -/
def inputFor (rule : Rule F) (event : Live.Event F) (now : Time) (state : State F) :
    EvaluationInput F :=
  let value := metricValue event.snapshot rule.metric
  { state, breached := breached value rule, currentValue := value
    duration := durationForRule rule, repeatInterval := Time.seconds rule.repeatSeconds, now }

/-- The event of a turn, when the result notifies. -/
def createdFor (rule : Rule F) (event : Live.Event F) (result : EvaluationResult F) :
    Option (Event F) :=
  if result.notify then
    some (eventFor rule event.snapshot result.state (metricValue event.snapshot rule.metric))
  else none

/-- The part of a turn that follows the reading of the state. -/
def advanceRule (event : Live.Event F) (rule : Rule F) (turn : Turn) (db : Database F)
    (state : State F) : Option (DeliveryJob F) × Database F :=
  let result := evaluate (inputFor rule event turn.now state)
  let created := createdFor rule event result
  match Repository.saveStateAndEvent db turn.savedAt result.state created turn.saveFails with
  | .error _ => (none, db)
  | .ok (stored, db') =>
    (stored.bind fun e => enqueueDelivery turn.webhook e event.snapshot rule, db')

/-- The turn gets as far as `Evaluate`: the event is not an offline one of a resource rule, and the
state is read. -/
def reaches (event : Live.Event F) (rule : Rule F) (turn : Turn) (db : Database F) : Bool :=
  !(decide (event.type = .offline) && decide (rule.metric ≠ .offline)) &&
    match Repository.getState db rule.id turn.getStateFails with
    | .ok _ | .error .notFound => true
    | .error _ => false

/-- One turn of the loop of `EvaluateNow`. -/
def evaluateRule (event : Live.Event F) (rule : Rule F) (turn : Turn) (db : Database F) :
    Option (DeliveryJob F) × Database F :=
  if event.type = .offline ∧ rule.metric ≠ .offline then (none, db)
  else
    match Repository.getState db rule.id turn.getStateFails with
    | .ok state => advanceRule event rule turn db state
    | .error .notFound => advanceRule event rule turn db (State.fresh rule.id)
    | .error _ => (none, db)

/-- The loop of `EvaluateNow`: the jobs it enqueues and the tables it leaves. -/
def evaluateRules (event : Live.Event F) (turns : Int → Turn) :
    List (Rule F) → Database F → List (DeliveryJob F) × Database F
  | [], db => ([], db)
  | rule :: rules, db =>
    let (job, db') := evaluateRule event rule (turns rule.id) db
    let (jobs, db'') := evaluateRules event turns rules db'
    (job.toList ++ jobs, db'')

/-- The rules a call of `EvaluateNow` goes through. -/
def listedRules (event : Live.Event F) (listFails : Bool) (db : Database F) : List (Rule F) :=
  if event.snapshot.serverID < 1 then []
  else
    match Repository.listEnabledRulesForServer db event.snapshot.serverID listFails with
    | .error _ => []
    | .ok rules => rules

/-- `EvaluateNow`. -/
def evaluateNow (event : Live.Event F) (listFails : Bool) (turns : Int → Turn) (db : Database F) :
    List (DeliveryJob F) × Database F :=
  evaluateRules event turns (listedRules event listFails db) db

/-! ## What a turn can do -/

/-- What `Evaluate` returns for a rule in a turn on its persisted state. -/
def resultOf (event : Live.Event F) (rule : Rule F) (now : Time) (db : Database F) :
    EvaluationResult F :=
  evaluate (inputFor rule event now (db.stateOf rule.id))

section Laws

variable {event : Live.Event F} {rule : Rule F} {turn : Turn} {db : Database F}

omit [Float64 F] in
/-- Without a failure of its own the listing holds every enabled row of the server. -/
theorem mem_listedRules_of {rule : Rule F} (h : Repository.Scans db) (hrule : rule ∈ db.rules)
    (hserver : rule.serverID = event.snapshot.serverID) (henabled : rule.enabled = true) :
    rule ∈ listedRules event false db := by
  have hv := h.rules rule hrule
  simp only [validateRule, Bool.and_eq_true, decide_eq_true_eq] at hv
  have hpos : 1 ≤ event.snapshot.serverID := hserver ▸ hv.1.1.1.1
  rw [listedRules, if_neg (by omega), h.list hpos]
  exact List.mem_filter.mpr ⟨hrule, by rw [hserver, henabled, beq_self_eq_true, Bool.and_self]⟩

omit [Float64 F] in
/-- A listed rule is an enabled row of the event's server. -/
theorem mem_listedRules {listFails : Bool} (h : rule ∈ listedRules event listFails db) :
    db.rule? rule.id = some rule ∧ rule.serverID = event.snapshot.serverID ∧
      rule.enabled = true := by
  unfold listedRules at h
  split at h
  next => cases h
  next =>
    split at h
    next => cases h
    next rules hrules =>
      rw [(Repository.mem_listed hrules).2.2, List.mem_filter, Bool.and_eq_true, beq_iff_eq] at h
      exact ⟨Database.rule?_of_mem h.1, h.2⟩

/-- The event a turn has saved, with the id and the time the repository gave it. -/
def storedFor (event : Live.Event F) (rule : Rule F) (turn : Turn) (db : Database F) :
    Option (Event F) :=
  (createdFor rule event (resultOf event rule turn.now db)).map
    (Repository.insertedEvent db turn.savedAt)

/-- The tables after a turn whose store calls succeeded. -/
def advanced (event : Live.Event F) (rule : Rule F) (turn : Turn) (db : Database F) :
    Database F :=
  Repository.saved db turn.savedAt (resultOf event rule turn.now db).state
    (createdFor rule event (resultOf event rule turn.now db))

/-- `advanceRule` stores the result and queues its delivery, or it has failed and stores nothing. -/
theorem advanceRule_cases (event : Live.Event F) (rule : Rule F) (turn : Turn)
    (db : Database F) :
    advanceRule event rule turn db (db.stateOf rule.id) = (none, db) ∨
      advanceRule event rule turn db (db.stateOf rule.id) =
        ((storedFor event rule turn db).bind
          fun e => enqueueDelivery turn.webhook e event.snapshot rule,
        advanced event rule turn db) := by
  unfold advanceRule
  rcases Repository.saveStateAndEvent_cases turn.savedAt (resultOf event rule turn.now db).state
    (createdFor rule event (resultOf event rule turn.now db)) turn.saveFails with ⟨e, h⟩ | h
  · apply Or.inl
    simp only [resultOf] at h
    simp only [h]
  · apply Or.inr
    simp only [resultOf] at h
    simp only [h, storedFor, advanced, resultOf]

/-- **What a turn does.** It leaves the tables alone and enqueues nothing, or it saves what
`Evaluate` returned for the rule's persisted state and enqueues at most the delivery of that
event. -/
theorem evaluateRule_cases (event : Live.Event F) (rule : Rule F) (turn : Turn)
    (db : Database F) :
    evaluateRule event rule turn db = (none, db) ∨
      ((event.type = .offline → rule.metric = .offline) ∧
        evaluateRule event rule turn db =
          ((storedFor event rule turn db).bind
            fun e => enqueueDelivery turn.webhook e event.snapshot rule,
          advanced event rule turn db)) := by
  unfold evaluateRule
  split
  next => exact Or.inl rfl
  next hguard =>
    have hguard' : event.type = .offline → rule.metric = .offline := fun ht =>
      not_not.mp fun hm => hguard ⟨ht, hm⟩
    cases h : Repository.getState db rule.id turn.getStateFails with
    | ok state =>
      have hst : state = db.stateOf rule.id := by
        rw [Database.stateOf, Repository.getState_ok h, Option.getD_some]
      rw [hst]
      exact (advanceRule_cases event rule turn db).imp id fun h => ⟨hguard', h⟩
    | error e =>
      cases e with
      | notFound =>
        have hst : State.fresh rule.id = db.stateOf rule.id := by
          rw [Database.stateOf, Repository.getState_notFound h, Option.getD_none]
        simp only [hst]
        exact (advanceRule_cases event rule turn db).imp id fun h => ⟨hguard', h⟩
      | _ => exact Or.inl rfl

/-- The breach test of a turn. -/
def breachedBy (event : Live.Event F) (rule : Rule F) : Bool :=
  breached (metricValue event.snapshot rule.metric) rule

/-- A rule that is not firing opens at a breach, or notifies nobody. -/
theorem resultOf_not_firing (event : Live.Event F) (now : Time)
    (hs : db.statusOf rule.id ≠ .firing) :
    ((resultOf event rule now db).notify = true ∧
        (resultOf event rule now db).state.status = .firing ∧
        (resultOf event rule now db).state.firingSince = some now ∧
        (resultOf event rule now db).state.lastNotifiedAt = some now ∧
        breachedBy event rule = true) ∨
      ((resultOf event rule now db).notify = false ∧
        (resultOf event rule now db).state.status ≠ .firing) :=
  evaluate_not_firing (inputFor rule event now (db.stateOf rule.id)) hs

/-- A firing rule stays firing at a breach, and recovers without one. -/
theorem resultOf_firing (event : Live.Event F) (now : Time)
    (hs : db.statusOf rule.id = .firing) :
    (breachedBy event rule = true ∧
        (resultOf event rule now db).state.status = .firing ∧
        (resultOf event rule now db).state.firingSince =
          some ((db.stateOf rule.id).firingSince.getD now) ∧
        ((resultOf event rule now db).notify = true → 0 < Time.seconds rule.repeatSeconds)) ∨
      (breachedBy event rule = false ∧
        (resultOf event rule now db).state.status = .recovered ∧
        (resultOf event rule now db).state.firingSince = (db.stateOf rule.id).firingSince ∧
        (resultOf event rule now db).notify = true) :=
  evaluate_firing (inputFor rule event now (db.stateOf rule.id)) hs

/-- A turn computes a new state exactly when it gets as far as `Evaluate`. -/
theorem evaluateRule_eq (event : Live.Event F) (rule : Rule F) (turn : Turn) (db : Database F) :
    evaluateRule event rule turn db =
      if reaches event rule turn db then advanceRule event rule turn db (db.stateOf rule.id)
      else (none, db) := by
  unfold evaluateRule reaches
  split
  next h => rw [decide_eq_true h.1, decide_eq_true h.2]; rfl
  next h =>
    have hguard : (!(decide (event.type = .offline) && decide (rule.metric ≠ .offline))) = true := by
      rw [Bool.not_eq_true', Bool.and_eq_false_iff, decide_eq_false_iff_not, decide_eq_false_iff_not]
      exact not_and_or.mp h
    rw [hguard, Bool.true_and]
    cases hget : Repository.getState db rule.id turn.getStateFails with
    | ok state => rw [Database.stateOf, Repository.getState_ok hget]; rfl
    | error e =>
      cases e with
      | notFound => rw [Database.stateOf, Repository.getState_notFound hget]; rfl
      | _ => rfl

/-! ## Frames -/

theorem createdFor_ruleID {result : EvaluationResult F} {e : Event F}
    (h : createdFor rule event result = some e) : e.ruleID = rule.id := by
  unfold createdFor at h
  split at h
  next => cases h; rfl
  next => cases h

/-- The event that is stored is about a server and has a status of the schema. -/
theorem createdFor_valid {now : Time} {e : Event F}
    (h : createdFor rule event (resultOf event rule now db) = some e)
    (hserver : 1 ≤ event.snapshot.serverID) : 1 ≤ e.serverID ∧ validStatus e.status = true := by
  unfold createdFor at h
  split at h
  next => cases h; exact ⟨hserver, validStatus_evaluate _⟩
  next => cases h

@[simp] theorem rules_advanced : (advanced event rule turn db).rules = db.rules :=
  Repository.rules_saved _ _

/-- The state of the rule is that of the result. -/
theorem stateOf_advanced :
    (advanced event rule turn db).stateOf rule.id =
      { (resultOf event rule turn.now db).state with updatedAt := turn.savedAt } := by
  rw [advanced, Repository.stateOf_saved, if_pos]
  rw [resultOf, evaluate_ruleID]
  exact (Database.stateOf_ruleID rule.id).symm

/-- A rule is pending since the breach that it is at, or since it was before. -/
theorem resultOf_pending {now : Time}
    (h : (resultOf event rule now db).state.status = .pending) :
    breachedBy event rule = true ∧ ((resultOf event rule now db).state.pendingSince = some now ∨
      (db.statusOf rule.id = .pending ∧ (resultOf event rule now db).state.pendingSince =
        (db.stateOf rule.id).pendingSince)) :=
  evaluate_pending (inputFor rule event now (db.stateOf rule.id)) h

/-- A rule opens at once without a duration, and otherwise when it was pending so long. -/
theorem resultOf_opens {now : Time} (hs : db.statusOf rule.id ≠ .firing)
    (h : (resultOf event rule now db).state.status = .firing) :
    breachedBy event rule = true ∧ (durationForRule rule ≤ 0 ∨ (db.statusOf rule.id = .pending ∧
      ∃ since, (db.stateOf rule.id).pendingSince = some since ∧
        ¬ now.sub since < durationForRule rule)) :=
  evaluate_opens (inputFor rule event now (db.stateOf rule.id)) hs h

/-- Its status is that of the result. -/
theorem statusOf_advanced :
    (advanced event rule turn db).statusOf rule.id =
      (resultOf event rule turn.now db).state.status := by
  rw [Database.statusOf, stateOf_advanced]

/-- Its events are those before and the one that is stored. -/
theorem eventsOf_advanced :
    (advanced event rule turn db).eventsOf rule.id =
      db.eventsOf rule.id ++ (storedFor event rule turn db).toList := by
  rw [advanced, Repository.eventsOf_saved _ fun _ => createdFor_ruleID, if_pos rfl, storedFor]

/-- The other rules keep their states. -/
theorem stateOf_advanced_ne {id : Int} (h : id ≠ rule.id) :
    (advanced event rule turn db).stateOf id = db.stateOf id := by
  rw [advanced, Repository.stateOf_saved, if_neg]
  rw [resultOf, evaluate_ruleID]
  exact fun heq => h (heq.trans (Database.stateOf_ruleID rule.id))

/-- They keep their events. -/
theorem eventsOf_advanced_ne {id : Int} (h : id ≠ rule.id) :
    (advanced event rule turn db).eventsOf id = db.eventsOf id := by
  rw [advanced, Repository.eventsOf_saved _ fun _ => createdFor_ruleID, if_neg (Ne.symm h),
    List.append_nil]

private theorem validStatus_resultOf (now : Time) :
    validStatus (resultOf event rule now db).state.status = true :=
  validStatus_evaluate _

/-- What an evaluation stores scans. -/
theorem scans_evaluateRule (h : Repository.Scans db) :
    Repository.Scans (evaluateRule event rule turn db).2 := by
  rcases evaluateRule_cases event rule turn db with heq | ⟨_, heq⟩
  · rw [heq]
    exact h
  · rw [heq]
    exact h.saved (validStatus_resultOf _) _

/-- **A turn whose store calls do not fail goes through**: nothing else can stop it. -/
theorem evaluateRule_ok (h : Repository.Scans db) (hrule : 1 ≤ rule.id)
    (hserver : 1 ≤ event.snapshot.serverID) (hguard : event.type = .offline → rule.metric = .offline)
    (hget : turn.getStateFails = false) (hsave : turn.saveFails = false) :
    (evaluateRule event rule turn db).2 = advanced event rule turn db := by
  have hstate : ∀ state, state = db.stateOf rule.id →
      (advanceRule event rule turn db state).2 = advanced event rule turn db := by
    rintro _ rfl
    have hok := @Repository.saveStateAndEvent_ok F db turn.savedAt
      (resultOf event rule turn.now db).state
      (createdFor rule event (resultOf event rule turn.now db))
      (by rw [resultOf, evaluate_ruleID]; exact (Database.stateOf_ruleID rule.id).symm ▸ hrule)
      (validStatus_resultOf _)
      (fun e he => ⟨(createdFor_ruleID he).symm ▸ hrule, createdFor_valid he hserver⟩)
    simp only [resultOf] at hok
    simp only [advanceRule, hsave, hok, advanced, resultOf]
  unfold evaluateRule
  rw [if_neg fun hc => hc.2 (hguard hc.1), hget, h.get hrule]
  unfold Database.stateOf at hstate
  cases hst : db.state? rule.id with
  | none => exact hstate _ (by rw [hst, Option.getD_none])
  | some state => exact hstate _ (by rw [hst, Option.getD_some])

/-! ## The event of a notification -/

theorem storedFor_none (h : (resultOf event rule turn.now db).notify = false) :
    storedFor event rule turn db = none := by
  rw [storedFor, createdFor, h, if_neg Bool.false_ne_true, Option.map_none]

/-- The event of a turn that notifies. -/
def notified (event : Live.Event F) (rule : Rule F) (turn : Turn) (db : Database F) : Event F :=
  Repository.insertedEvent db turn.savedAt
    (eventFor rule event.snapshot (resultOf event rule turn.now db).state
      (metricValue event.snapshot rule.metric))

/-- A result that notifies stores its event. -/
theorem storedFor_some (h : (resultOf event rule turn.now db).notify = true) :
    storedFor event rule turn db = some (notified event rule turn db) := by
  rw [storedFor, createdFor, h, if_pos rfl, Option.map_some, notified]

/-- An event starts when the rule has begun to fire. -/
theorem notified_startedAt {t : Time}
    (h : (resultOf event rule turn.now db).state.firingSince = some t) :
    (notified event rule turn db).startedAt = t := by
  simp only [notified, Repository.insertedEvent, eventFor, h, Option.getD_some]

/-- It has an end when the rule has recovered. -/
theorem notified_endedAt :
    (notified event rule turn db).endedAt.isSome = true ↔
      (resultOf event rule turn.now db).state.status = .recovered := by
  simp only [notified, Repository.insertedEvent, eventFor]
  split
  next h => simp only [h, Option.isSome_some]
  next h => simp only [h, Option.isSome_none, Bool.false_eq_true]

/-- What a firing notification puts into the log. -/
theorem notified_firing {t : Time}
    (hst : (resultOf event rule turn.now db).state.status = .firing)
    (hsince : (resultOf event rule turn.now db).state.firingSince = some t) :
    (notified event rule turn db).status = .firing ∧ (notified event rule turn db).startedAt = t ∧
      (notified event rule turn db).endedAt = none := by
  refine ⟨hst, notified_startedAt hsince, ?_⟩
  rw [← Option.not_isSome_iff_eq_none, notified_endedAt, hst]
  exact nofun

/-- It names the rule. -/
theorem notified_ruleID : (notified event rule turn db).ruleID = rule.id := rfl

/-- It names the server of the snapshot. -/
theorem notified_serverID :
    (notified event rule turn db).serverID = event.snapshot.serverID := rfl

/-- It has the status of the result. -/
theorem notified_status :
    (notified event rule turn db).status = (resultOf event rule turn.now db).state.status := rfl

/-! ## Whole turns -/

/-- A delivery is of the event that was stored. -/
theorem enqueueDelivery_event {webhook : Except RepositoryError WebhookConfig} {e : Event F}
    {snapshot : Live.Snapshot F} {job : DeliveryJob F}
    (h : enqueueDelivery webhook e snapshot rule = some job) : job.event = e := by
  unfold enqueueDelivery at h
  split at h
  next => cases h
  next =>
    split at h
    next => cases h; rfl
    next => cases h

/-- A turn delivers events of its own rule only. -/
theorem evaluateRule_job {job : DeliveryJob F} (h : (evaluateRule event rule turn db).1 = some job) :
    job.event.ruleID = rule.id := by
  rcases evaluateRule_cases event rule turn db with heq | ⟨_, heq⟩
  · rw [heq] at h
    cases h
  · rw [heq] at h
    obtain ⟨e, he, hjob⟩ := Option.bind_eq_some_iff.mp h
    obtain ⟨c, hc, rfl⟩ := Option.map_eq_some_iff.mp he
    rw [enqueueDelivery_event hjob]
    exact (createdFor_ruleID hc : c.ruleID = rule.id)

/-- A turn leaves the state and the log of every other rule as they were. -/
theorem evaluateRule_frame (event : Live.Event F) (turn : Turn) (db : Database F) {id : Int}
    (h : id ≠ rule.id) :
    (evaluateRule event rule turn db).2.state? id = db.state? id ∧
      (evaluateRule event rule turn db).2.eventsOf id = db.eventsOf id := by
  rcases evaluateRule_cases event rule turn db with heq | ⟨_, heq⟩
  · rw [heq]
    exact ⟨rfl, rfl⟩
  · rw [heq]
    refine ⟨?_, eventsOf_advanced_ne h⟩
    rw [advanced, Repository.state?_saved, if_neg]
    rw [resultOf, evaluate_ruleID]
    exact fun heq => h (heq.trans (Database.stateOf_ruleID rule.id))

@[simp] theorem rules_evaluateRule : (evaluateRule event rule turn db).2.rules = db.rules := by
  rcases evaluateRule_cases event rule turn db with h | ⟨_, h⟩
  · rw [h]
  · rw [h]; exact rules_advanced

/-! ## Whole calls -/

theorem resultOf_congr {db' : Database F} (h : db'.stateOf rule.id = db.stateOf rule.id) (now : Time) :
    resultOf event rule now db' = resultOf event rule now db := by
  rw [resultOf, h, resultOf]

@[simp] theorem rules_evaluateRules (turns : Int → Turn) (rules : List (Rule F)) :
    (evaluateRules event turns rules db).2.rules = db.rules := by
  induction rules generalizing db with
  | nil => rfl
  | cons rule rules ih => exact ih.trans rules_evaluateRule

private theorem scans_evaluateRules (h : Repository.Scans db) (turns : Int → Turn)
    (rules : List (Rule F)) : Repository.Scans (evaluateRules event turns rules db).2 := by
  induction rules generalizing db with
  | nil => exact h
  | cons rule rules ih => exact ih (scans_evaluateRule h)

/-- A loop leaves the states of the rules it does not go through. -/
theorem stateOf_evaluateRules_ne {turns : Int → Turn} {rules : List (Rule F)} {id : Int}
    (h : ∀ rule ∈ rules, id ≠ rule.id) :
    (evaluateRules event turns rules db).2.stateOf id = db.stateOf id := by
  induction rules generalizing db with
  | nil => rfl
  | cons rule rules ih =>
    have hrest := @ih (evaluateRule event rule (turns rule.id) db).2 fun row hrow =>
      h row (List.mem_cons_of_mem _ hrow)
    exact hrest.trans
      (Database.stateOf_congr (evaluateRule_frame event _ db (h rule List.mem_cons_self)).1)

/-- **A loop without failures takes each of its rules one step** from the state it had before the
call. -/
theorem stateOf_evaluateRules {turns : Int → Turn} {rules : List (Rule F)}
    (h : Repository.Scans db) (hids : (rules.map Rule.id).Nodup)
    (hget : ∀ id, (turns id).getStateFails = false) (hsave : ∀ id, (turns id).saveFails = false)
    (hserver : 1 ≤ event.snapshot.serverID) (hrule : rule ∈ rules) (hid : 1 ≤ rule.id)
    (hguard : event.type = .offline → rule.metric = .offline) :
    (evaluateRules event turns rules db).2.stateOf rule.id =
      { (resultOf event rule (turns rule.id).now db).state with
        updatedAt := (turns rule.id).savedAt } := by
  induction rules generalizing db with
  | nil => cases hrule
  | cons row rows ih =>
    rw [List.map_cons, List.nodup_cons] at hids
    rcases List.mem_cons.mp hrule with rfl | hmem
    · have hrest := @stateOf_evaluateRules_ne F _ event
        (evaluateRule event rule (turns rule.id) db).2 turns rows rule.id fun row hrow heq =>
          hids.1 (heq ▸ List.mem_map_of_mem hrow)
      apply hrest.trans
      rw [evaluateRule_ok h hid hserver hguard (hget _) (hsave _), stateOf_advanced]
    · have hne : rule.id ≠ row.id := fun heq => hids.1 (heq ▸ List.mem_map_of_mem hmem)
      apply (ih (scans_evaluateRule h) hids.2 hmem).trans
      rw [resultOf_congr (Database.stateOf_congr (evaluateRule_frame event _ db hne).1)]

@[simp] theorem rules_evaluateNow (listFails : Bool) (turns : Int → Turn) :
    (evaluateNow event listFails turns db).2.rules = db.rules := rules_evaluateRules _ _

/-- What `EvaluateNow` stores scans, whichever calls fail. -/
theorem scans_evaluateNow (h : Repository.Scans db) (listFails : Bool) (turns : Int → Turn) :
    Repository.Scans (evaluateNow event listFails turns db).2 := scans_evaluateRules h _ _

/-- A call leaves the states of the rules of other servers. -/
theorem stateOf_evaluateNow_ne (event : Live.Event F) (listFails : Bool) (turns : Int → Turn)
    (hrule : rule ∈ db.rules)
    (hserver : rule.serverID ≠ event.snapshot.serverID) :
    (evaluateNow event listFails turns db).2.stateOf rule.id = db.stateOf rule.id := by
  refine stateOf_evaluateRules_ne fun row hrow heq => ?_
  obtain ⟨hget, hrowserver, _⟩ := mem_listedRules hrow
  rw [← heq, Database.rule?_of_mem hrule] at hget
  exact hserver (Option.some.inj hget ▸ hrowserver)

/-- **A call without failures takes each enabled rule of the server one step.** -/
theorem stateOf_evaluateNow {turns : Int → Turn} (h : Repository.Scans db)
    (hget : ∀ id, (turns id).getStateFails = false) (hsave : ∀ id, (turns id).saveFails = false)
    (hrule : rule ∈ db.rules) (hserver : rule.serverID = event.snapshot.serverID)
    (henabled : rule.enabled = true) (hguard : event.type = .offline → rule.metric = .offline) :
    (evaluateNow event false turns db).2.stateOf rule.id =
      { (resultOf event rule (turns rule.id).now db).state with
        updatedAt := (turns rule.id).savedAt } := by
  have hv := h.rules rule hrule
  simp only [validateRule, Bool.and_eq_true, decide_eq_true_eq] at hv
  have hpos : 1 ≤ event.snapshot.serverID := hserver ▸ hv.1.1.1.1
  have hids : ((listedRules event false db).map Rule.id).Nodup := by
    rw [listedRules, if_neg (by omega), h.list hpos]
    exact (db.rules_ids.imp Int.ne_of_lt).sublist (List.filter_sublist.map Rule.id)
  exact stateOf_evaluateRules h hids hget hsave hpos
    (mem_listedRules_of h hrule hserver henabled) (db.rules_bound rule hrule).1 hguard

end Laws

end Evaluator

end TinyProbe.Alerting
