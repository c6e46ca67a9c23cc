import Mathlib.Computability.Language
import TinyProbe.Alerting.Service

/-!
# The log of a rule

What the tables hold of one rule, over every run of evaluations and rule edits with failures in any
place. The events of the rule fall into closed episodes (firing events of one start, then the
recovered event that ends them) and at most one open episode, which is there exactly while the
persisted status is firing and whose start is the persisted `FiringSince`. The episodes are
structures that carry these facts, so the log is described by building them (`Tracked`).

`tracked_advanced` is the step: a turn outside firing appends nothing or opens an episode, a turn
inside appends nothing, a reminder, or the closing event. The last section compares two calls of
`EvaluateNow` that differ in the turn of one rule.
-/

namespace TinyProbe.Alerting.Log

open TinyProbe.Run Service Computability

variable {F : Type}

/-- The firing events of one alert: the one that opened it, and the reminders. -/
structure Episode (F : Type) where
  startedAt : Time
  opening : Event F
  reminders : List (Event F)
  firing : ∀ e ∈ opening :: reminders, e.status = .firing ∧ e.startedAt = startedAt ∧
    e.endedAt = none

/-- An alert and the recovered event that closed it. -/
structure Closed (F : Type) extends Episode F where
  closing : Event F
  recovered : closing.status = .recovered ∧ closing.startedAt = startedAt ∧
    closing.endedAt.isSome = true

def Episode.events (e : Episode F) : List (Event F) := e.opening :: e.reminders

def Closed.events (c : Closed F) : List (Event F) := c.toEpisode.events ++ [c.closing]

/-- The log that closed episodes and an open one make up. -/
def logOf (closed : List (Closed F)) (current : Option (Episode F)) : List (Event F) :=
  closed.flatMap Closed.events ++ (current.map Episode.events).getD []

/-- No episode has a reminder: each has exactly one firing event. -/
def Quiet (closed : List (Closed F)) (current : Option (Episode F)) : Prop :=
  (∀ c ∈ closed, c.reminders = []) ∧ ∀ e, current = some e → e.reminders = []

/-- `(firing+ recovered)*`. -/
def firingRecovered : Language Status := ({[.firing]} * {[.firing]}∗ * {[.recovered]})∗

/-! ## Logs made of episodes -/

section Shape

theorem events_status (e : Episode F) :
    e.events.map Event.status ∈ ({[.firing]} * {[.firing]}∗ : Language Status) := by
  refine Language.mem_mul.mpr ⟨[.firing], rfl, e.reminders.map Event.status, ?_, ?_⟩
  · refine Language.mem_kstar.mpr ⟨(e.reminders.map Event.status).map ([·]), ?_, ?_⟩
    · rw [← List.flatMap_def, List.flatMap_singleton']
    · intro w hw
      simp only [List.mem_map] at hw
      obtain ⟨_, ⟨x, hx, rfl⟩, rfl⟩ := hw
      rw [(e.firing x (List.mem_cons_of_mem _ hx)).1]
      rfl
  · rw [Episode.events, List.map_cons, (e.firing e.opening List.mem_cons_self).1]
    rfl

/-- Closing an episode completes a word of the block language. -/
theorem closed_status (e : Episode F) :
    e.events.map Event.status ++ [.recovered] ∈
      ({[.firing]} * {[.firing]}∗ * {[.recovered]} : Language Status) :=
  Language.mem_mul.mpr ⟨_, events_status e, [.recovered], rfl, rfl⟩

theorem closed_log (closed : List (Closed F)) :
    (closed.flatMap Closed.events).map Event.status ∈ firingRecovered := by
  refine Language.mem_kstar.mpr
    ⟨closed.map fun c => c.events.map Event.status, ?_, ?_⟩
  · rw [List.map_flatMap, List.flatMap_def]
  · intro w hw
    obtain ⟨c, _, rfl⟩ := List.mem_map.mp hw
    rw [Closed.events, List.map_append, List.map_singleton, c.recovered.1]
    exact closed_status c.toEpisode

/-- A log of episodes is a prefix of a word of `(firing+ recovered)*`. -/
theorem log_prefix (closed : List (Closed F)) (current : Option (Episode F)) :
    ∃ rest, (logOf closed current).map Event.status ++ rest ∈ firingRecovered := by
  cases current with
  | none =>
    refine ⟨[], ?_⟩
    rw [logOf, Option.map_none, Option.getD_none, List.append_nil, List.append_nil]
    exact closed_log closed
  | some e =>
    refine ⟨[.recovered], ?_⟩
    obtain ⟨words, hflat, hwords⟩ := Language.mem_kstar.mp (closed_log closed)
    refine Language.mem_kstar.mpr
      ⟨words ++ [e.events.map Event.status ++ [.recovered]], ?_, ?_⟩
    · rw [logOf, List.map_append, hflat, List.append_assoc, List.flatten_append,
        List.flatten_singleton, Option.map_some, Option.getD_some]
    · intro w hw
      rcases List.mem_append.mp hw with hw | hw
      · exact hwords w hw
      · rw [List.mem_singleton.mp hw]
        exact closed_status e

/-- Recovered events and only they carry an end. -/
theorem recovered_iff {closed : List (Closed F)} {current : Option (Episode F)} {e : Event F}
    (he : e ∈ logOf closed current) : e.status = .recovered ↔ e.endedAt.isSome = true := by
  have hfiring : ∀ ep : Episode F, e ∈ ep.events →
      (e.status = .recovered ↔ e.endedAt.isSome = true) := fun ep h => by
    obtain ⟨hs, _, hend⟩ := ep.firing e h
    simp only [hs, hend, reduceCtorEq, Option.isSome_none, Bool.false_eq_true]
  rcases List.mem_append.mp he with he | he
  · obtain ⟨c, _, hc⟩ := List.mem_flatMap.mp he
    rcases List.mem_append.mp hc with hc | hc
    · exact hfiring _ hc
    · rw [List.mem_singleton.mp hc]
      simp only [c.recovered.1, c.recovered.2.2]
  · cases current with
    | none => cases he
    | some ep => exact hfiring ep he

/-- The last event of a log is firing exactly when an episode is open. -/
theorem last_firing_iff (closed : List (Closed F)) (current : Option (Episode F)) :
    (∃ e, (logOf closed current).getLast? = some e ∧ e.status = .firing) ↔
      current.isSome = true := by
  cases current with
  | some ep =>
    have hne : ep.events ≠ [] := List.cons_ne_nil _ _
    simp only [logOf, Option.map_some, Option.getD_some, Option.isSome_some, iff_true]
    refine ⟨ep.events.getLast hne, ?_, (ep.firing _ (List.getLast_mem hne)).1⟩
    rw [List.getLast?_append, List.getLast?_eq_some_getLast hne, Option.some_or]
  | none =>
    simp only [logOf, Option.map_none, Option.getD_none, List.append_nil, Option.isSome_none,
      Bool.false_eq_true, iff_false]
    rintro ⟨e, hlast, hfiring⟩
    rcases closed.eq_nil_or_concat with rfl | ⟨init, c, rfl⟩
    · simp only [List.flatMap_nil, List.getLast?_nil, reduceCtorEq] at hlast
    · rw [List.concat_eq_append, List.flatMap_append, List.flatMap_singleton, Closed.events,
        ← List.append_assoc, List.getLast?_concat, Option.some.injEq] at hlast
      rw [← hlast, c.recovered.1] at hfiring
      cases hfiring

end Shape

/-! ## The invariant -/

/-- The tables hold these episodes of the rule: the open one is there while the status is firing,
and its start is the persisted `FiringSince`. -/
structure Tracked (db : Database F) (id : Int) (closed : List (Closed F))
    (current : Option (Episode F)) : Prop where
  log : db.eventsOf id = logOf closed current
  status : db.statusOf id = .firing ↔ current.isSome = true
  since : ∀ e, current = some e → (db.stateOf id).firingSince = some e.startedAt

theorem tracked_empty (id : Int) : Tracked (Database.empty : Database F) id [] none where
  log := rfl
  status := by
    rw [Database.statusOf, Database.stateOf_empty]
    simp only [State.fresh, reduceCtorEq, Option.isSome_none, Bool.false_eq_true]
  since := fun _ h => nomatch h

theorem Tracked.congr {db db' : Database F} {id : Int} {closed : List (Closed F)}
    {current : Option (Episode F)} (hst : db'.stateOf id = db.stateOf id)
    (hev : db'.eventsOf id = db.eventsOf id) (h : Tracked db id closed current) :
    Tracked db' id closed current where
  log := hev.trans h.log
  status := by rw [Database.statusOf, hst]; exact h.status
  since := by rw [hst]; exact h.since

variable [Float64 F]

section Step

variable {event : Live.Event F} {rule : Rule F} {turn : Turn} {db : Database F}
  {closed : List (Closed F)} {current : Option (Episode F)}

/-- The invariant after a turn, from what the turn appended. -/
theorem tracked_after {closed' : List (Closed F)} {current' : Option (Episode F)}
    (hlog : db.eventsOf rule.id ++ (storedFor event rule turn db).toList = logOf closed' current')
    (hst : (resultOf event rule turn.now db).state.status = .firing ↔ current'.isSome = true)
    (hsince : ∀ e, current' = some e →
      (resultOf event rule turn.now db).state.firingSince = some e.startedAt) :
    Tracked (advanced event rule turn db) rule.id closed' current' where
  log := eventsOf_advanced.trans hlog
  status := by rw [statusOf_advanced]; exact hst
  since := fun e he => by rw [stateOf_advanced]; exact hsince e he

/-- A turn outside firing opens an episode or appends nothing. -/
theorem tracked_not_firing (event : Live.Event F) (turn : Turn)
    (h : Tracked db rule.id closed none) :
    ∃ current', Tracked (advanced event rule turn db) rule.id closed current' ∧
      ∀ e, current' = some e → e.reminders = [] := by
  have hs : db.statusOf rule.id ≠ .firing := fun hf => Bool.false_ne_true (h.status.mp hf)
  rcases resultOf_not_firing event turn.now hs with
    ⟨hn, hst, hsince, _, _⟩ | ⟨hn, hst⟩
  · let e : Episode F := ⟨turn.now, notified event rule turn db, [], fun x hx => by
      rw [List.mem_singleton.mp hx]; exact notified_firing hst hsince⟩
    refine ⟨some e, tracked_after ?_ (iff_of_true hst rfl) fun _ he => ?_, fun _ he => ?_⟩
    · rw [h.log, storedFor_some hn, logOf, logOf, Option.map_none, Option.getD_none,
        List.append_nil]
      rfl
    · cases he
      exact hsince
    · cases he
      rfl
  · refine ⟨none, tracked_after ?_ (iff_of_false hst Bool.false_ne_true) (fun _ h => nomatch h),
      fun _ h => nomatch h⟩
    rw [h.log, storedFor_none hn, Option.toList_none, List.append_nil]

/-- A turn inside firing appends nothing, a reminder, or the event that closes the episode. -/
theorem tracked_firing (event : Live.Event F) (turn : Turn) {e : Episode F}
    (h : Tracked db rule.id closed (some e)) :
    (∃ e' : Episode F, Tracked (advanced event rule turn db) rule.id closed (some e') ∧
        (rule.repeatSeconds = 0 → e'.reminders = e.reminders)) ∨
      ∃ c : Closed F, Tracked (advanced event rule turn db) rule.id (closed ++ [c]) none ∧
        c.reminders = e.reminders := by
  have hfs : (db.stateOf rule.id).firingSince = some e.startedAt := h.since e rfl
  rcases resultOf_firing event turn.now (h.status.mpr rfl) with
    ⟨_, hst, hsince, hrep⟩ | ⟨_, hst, hsince, hn⟩
  · rw [hfs, Option.getD_some] at hsince
    apply Or.inl
    cases hn : (resultOf event rule turn.now db).notify with
    | false =>
      refine ⟨e, tracked_after ?_ (iff_of_true hst rfl) fun _ he => ?_, fun _ => rfl⟩
      · rw [h.log, storedFor_none hn, Option.toList_none, List.append_nil]
      · cases he
        exact hsince
    | true =>
      let e' : Episode F := ⟨e.startedAt, e.opening, e.reminders ++ [notified event rule turn db],
        fun x hx => by
          rw [← List.cons_append, List.mem_append, List.mem_singleton] at hx
          rcases hx with hx | rfl
          · exact e.firing x hx
          · exact notified_firing hst hsince⟩
      refine ⟨e', tracked_after ?_ (iff_of_true hst rfl) fun _ he => ?_, fun hzero => ?_⟩
      · rw [h.log, storedFor_some hn, logOf, logOf, List.append_assoc]
        rfl
      · cases he
        exact hsince
      · have hpos := hrep hn
        rw [hzero, Time.seconds_zero] at hpos
        exact absurd hpos Int64.lt_irrefl
  · rw [hfs] at hsince
    let c : Closed F := ⟨e, notified event rule turn db, hst, notified_startedAt hsince,
      notified_endedAt.mpr hst⟩
    refine Or.inr ⟨c, tracked_after ?_ (iff_of_false ?_ Bool.false_ne_true) (fun _ h => nomatch h), rfl⟩
    · rw [h.log, storedFor_some hn, logOf, logOf, Option.map_none, Option.getD_none,
        List.append_nil, List.flatMap_append, List.flatMap_singleton, List.append_assoc]
      rfl
    · rw [hst]
      exact nofun

/-- **The step.** A turn keeps the log made of episodes, and adds no reminder when the rule's
repeat is off. -/
theorem tracked_advanced (event : Live.Event F) (turn : Turn)
    (h : Tracked db rule.id closed current) :
    ∃ closed' current', Tracked (advanced event rule turn db) rule.id closed' current' ∧
      (rule.repeatSeconds = 0 → Quiet closed current → Quiet closed' current') := by
  cases current with
  | none =>
    obtain ⟨current', htr, hq⟩ := tracked_not_firing event turn h
    exact ⟨closed, current', htr, fun _ hquiet => ⟨hquiet.1, hq⟩⟩
  | some e =>
    rcases tracked_firing event turn h with ⟨e', htr, hq⟩ | ⟨c, htr, hq⟩
    · refine ⟨closed, some e', htr, fun hzero hquiet => ⟨hquiet.1, ?_⟩⟩
      rintro _ ⟨⟩
      rw [hq hzero, hquiet.2 e rfl]
    · refine ⟨closed ++ [c], none, htr, fun _ hquiet => ⟨fun x hx => ?_, fun _ h => nomatch h⟩⟩
      rcases List.mem_append.mp hx with hx | hx
      · exact hquiet.1 x hx
      · rw [List.mem_singleton.mp hx, hq, hquiet.2 e rfl]

end Step

/-! ## Runs -/

/-- The rule's row has its repeat off. -/
def RepeatOff (id : Int) (s : Service F) : Prop :=
  ∀ rule, s.db.rule? id = some rule → rule.repeatSeconds = 0

/-- The copies a call still holds of the rule have their repeat off. -/
def CopiesOff (id : Int) (s : Service F) : Prop :=
  ∀ p ∈ s.todo, p.2.id = id → p.2.repeatSeconds = 0

theorem copiesOff_step {s : Service F} {id : Int} (hs : RepeatOff id s) (h : CopiesOff id s)
    (a : Action F) : CopiesOff id (step s a) := fun p hp hid => by
  rcases todo_step s a with hsuffix | ⟨_, _, event, listFails, _, htodo⟩
  · exact h p (hsuffix.subset hp) hid
  · rw [htodo] at hp
    obtain ⟨rule, hrule, rfl⟩ := List.mem_map.mp hp
    exact hs rule (hid ▸ (mem_listedRules hrule).1)

/-- **The run.** In every state the tables hold episodes of the rule, without reminders when the
repeat was off throughout. -/
theorem tracked_run (id : Int) (as : List (Action F)) :
    ∃ closed current, Tracked (run step initial as).db id closed current ∧
      (Throughout step (RepeatOff id) initial as →
        Quiet closed current ∧ CopiesOff id (run step initial as)) := by
  induction as using List.reverseRecOn with
  | nil => exact ⟨[], none, tracked_empty id, fun _ => ⟨⟨fun _ h => absurd h List.not_mem_nil,
      fun _ h => nomatch h⟩, fun _ h => absurd h List.not_mem_nil⟩⟩
  | append_singleton as a ih =>
    obtain ⟨closed, current, htr, hquiet⟩ := ih
    rw [run_snoc]
    rcases step_cases (run step initial as) a id with
      ⟨hst, hev⟩ | ⟨event, rule, turn, htakes, hid, hdb⟩
    · refine ⟨closed, current, htr.congr hst hev, fun hoff => ?_⟩
      obtain ⟨hoff, _⟩ := throughout_snoc.mp hoff
      exact ⟨(hquiet hoff).1, copiesOff_step hoff.last (hquiet hoff).2 a⟩
    · subst hid
      obtain ⟨closed', current', htr', hq⟩ :=
        tracked_advanced event turn htr
      refine ⟨closed', current', hdb ▸ htr', fun hoff => ?_⟩
      obtain ⟨hquiet, hcopies⟩ := hquiet (throughout_snoc.mp hoff).1
      refine ⟨hq ?_ hquiet, copiesOff_step (throughout_snoc.mp hoff).1.last hcopies a⟩
      cases a with
      | turn t => exact hcopies _ (List.mem_of_head? htakes.2.1) rfl
      | _ => exact htakes.elim

/-! ## Two calls that differ in one rule -/

section Independence

/-- An event, its id aside: the ids are drawn from one sequence for all rules. -/
def content (e : Event F) : Event F := { e with id := 0 }

/-- A delivery, the id of its event aside. -/
def jobContent (job : DeliveryJob F) : DeliveryJob F :=
  { job with event := content job.event, data := { job.data with eventID := 0 } }

/-- The tables agree on a rule, the ids of its events aside. -/
structure Agree (id : Int) (db db' : Database F) : Prop where
  state : db.state? id = db'.state? id
  log : (db.eventsOf id).map content = (db'.eventsOf id).map content

/-- The deliveries of a rule's events, the ids of the events aside. -/
def jobsOf (id : Int) (jobs : List (DeliveryJob F)) : List (DeliveryJob F) :=
  (jobs.filter (·.event.ruleID == id)).map jobContent

variable {event : Live.Event F} {rule : Rule F} {turn : Turn} {db db' : Database F} {id : Int}

theorem jobContent_enqueue {webhook : Except RepositoryError WebhookConfig} {e e' : Event F}
    {snapshot : Live.Snapshot F} (h : content e = content e') :
    (enqueueDelivery webhook e snapshot rule).map jobContent =
      (enqueueDelivery webhook e' snapshot rule).map jobContent := by
  obtain ⟨_, _, _, _, _, _, _, _, _⟩ := e
  obtain ⟨_, _, _, _, _, _, _, _, _⟩ := e'
  cases h
  unfold enqueueDelivery
  split
  next => rfl
  next => split <;> rfl

/-- From tables that agree on the rule, both saves fail or both write the same. -/
theorem advanceRule_agree (h : Agree rule.id db db') {state : State F}
    (hst : state.ruleID = rule.id) :
    Agree rule.id (advanceRule event rule turn db state).2
        (advanceRule event rule turn db' state).2 ∧
      (advanceRule event rule turn db state).1.map jobContent =
        (advanceRule event rule turn db' state).1.map jobContent := by
  have hid : (evaluate (inputFor rule event turn.now state)).state.ruleID = rule.id := by
    rw [evaluate_ruleID]
    exact hst
  unfold advanceRule
  simp only
  generalize evaluate (inputFor rule event turn.now state) = result at hid
  rcases Repository.saveStateAndEvent_cases turn.savedAt result.state
    (createdFor rule event result) turn.saveFails with ⟨e, hsave⟩ | hsave
  · simp only [hsave]
    exact ⟨h, trivial⟩
  · simp only [hsave]
    refine ⟨⟨?_, ?_⟩, ?_⟩
    · rw [Repository.state?_saved, Repository.state?_saved, hid, if_pos rfl, if_pos rfl]
    · rw [Repository.eventsOf_saved _ fun _ => createdFor_ruleID,
        Repository.eventsOf_saved _ fun _ => createdFor_ruleID, if_pos rfl, if_pos rfl,
        List.map_append, List.map_append, h.log]
      cases createdFor rule event result <;> rfl
    · cases createdFor rule event result with
      | none => rfl
      | some e => exact jobContent_enqueue rfl

theorem evaluateRule_agree (event : Live.Event F) (turn : Turn) (h : Agree rule.id db db') :
    Agree rule.id (evaluateRule event rule turn db).2 (evaluateRule event rule turn db').2 ∧
      (evaluateRule event rule turn db).1.map jobContent =
        (evaluateRule event rule turn db').1.map jobContent := by
  have hget : ∀ fails, Repository.getState db' rule.id fails =
      Repository.getState db rule.id fails := fun fails => by
    rw [Repository.getState, Repository.getState, h.state]
  unfold evaluateRule
  rw [hget]
  split
  next => exact ⟨h, rfl⟩
  next =>
    split
    next state hstate =>
      exact advanceRule_agree h (db.states_keyed _ _ (Repository.getState_ok hstate))
    next => exact advanceRule_agree h rfl
    next => exact ⟨h, rfl⟩

/-- The turns of other rules keep an agreement, whatever they meet. -/
theorem evaluateRule_agree_ne (event : Live.Event F) (turn turn' : Turn)
    (hid : id ≠ rule.id) (h : Agree id db db') :
    Agree id (evaluateRule event rule turn db).2 (evaluateRule event rule turn' db').2 := by
  obtain ⟨hst, hev⟩ := evaluateRule_frame event turn db hid
  obtain ⟨hst', hev'⟩ := evaluateRule_frame event turn' db' hid
  exact ⟨by rw [hst, hst']; exact h.state, by rw [hev, hev']; exact h.log⟩

omit [Float64 F] in
theorem jobsOf_append (jobs jobs' : List (DeliveryJob F)) :
    jobsOf id (jobs ++ jobs') = jobsOf id jobs ++ jobsOf id jobs' := by
  simp only [jobsOf, List.filter_append, List.map_append]

omit [Float64 F] in
theorem jobsOf_own {job : Option (DeliveryJob F)}
    (h : ∀ j, job = some j → j.event.ruleID = id) :
    jobsOf id job.toList = (job.map jobContent).toList := by
  cases job with
  | none => rfl
  | some j => simp only [jobsOf, Option.toList_some, List.filter_cons, h j rfl, beq_self_eq_true,
      if_true, List.filter_nil, List.map_cons, List.map_nil, Option.map_some]

omit [Float64 F] in
theorem jobsOf_other {job : Option (DeliveryJob F)}
    (h : ∀ j, job = some j → j.event.ruleID ≠ id) : jobsOf id job.toList = [] := by
  cases job with
  | none => rfl
  | some j =>
    have hne : (j.event.ruleID == id) = false := beq_eq_false_iff_ne.mpr (h j rfl)
    simp only [jobsOf, Option.toList_some, List.filter_cons, hne, Bool.false_eq_true, if_false,
      List.filter_nil, List.map_nil]

/-- **The turn of one rule does not reach another**: two passes over the rules whose turns differ
in rule `r` only write the same of every other rule and deliver the same events of it. -/
theorem evaluateRules_agree {turns turns' : Int → Turn} {r : Int}
    (hturns : ∀ q, q ≠ r → turns q = turns' q) (hid : id ≠ r) (rules : List (Rule F))
    (h : Agree id db db') :
    Agree id (evaluateRules event turns rules db).2 (evaluateRules event turns' rules db').2 ∧
      jobsOf id (evaluateRules event turns rules db).1 =
        jobsOf id (evaluateRules event turns' rules db').1 := by
  induction rules generalizing db db' with
  | nil => exact ⟨h, rfl⟩
  | cons rule rules ih =>
    simp only [evaluateRules, jobsOf_append]
    by_cases hrule : rule.id = id
    · subst hrule
      rw [← hturns rule.id hid]
      obtain ⟨hagree, hjob⟩ := evaluateRule_agree event (turns rule.id) h
      obtain ⟨hagree', hjobs⟩ := ih hagree
      refine ⟨hagree', ?_⟩
      rw [jobsOf_own fun _ => evaluateRule_job, jobsOf_own fun _ => evaluateRule_job, hjob, hjobs]
    · obtain ⟨hagree', hjobs⟩ := ih (evaluateRule_agree_ne event (turns rule.id)
        (turns' rule.id) (Ne.symm hrule) h)
      refine ⟨hagree', ?_⟩
      have hne : ∀ (turn : Turn) (db : Database F) (j : DeliveryJob F),
          (evaluateRule event rule turn db).1 = some j → j.event.ruleID ≠ id :=
        fun _ _ _ hj heq => hrule ((evaluateRule_job hj).symm.trans heq)
      rw [jobsOf_other (hne _ _), jobsOf_other (hne _ _), hjobs]

end Independence

/-! ## The log, at every moment of every run -/

/-- **The log of every rule is well formed**, wherever the run has got to and whatever failed on the
way: it falls into episodes (with one firing event each when the repeat was off throughout), its
statuses are a prefix of `(firing+ recovered)*`, recovered events and only they have an end, and
the persisted status is firing exactly when the last event is. From these tables, two calls of
`EvaluateNow` that differ in what the turn of this rule meets write the same of every other rule
and deliver the same events of it. -/
theorem log_wellFormed (id : Int) (as : List (Action F)) :
    let db := (run step initial as).db
    (∃ closed current, db.eventsOf id = logOf closed current ∧
        (Throughout step (RepeatOff id) initial as → Quiet closed current)) ∧
      (∃ rest, (db.eventsOf id).map Event.status ++ rest ∈ firingRecovered) ∧
      (∀ e ∈ db.eventsOf id, e.status = .recovered ↔ e.endedAt.isSome = true) ∧
      (db.statusOf id = .firing ↔
        ∃ e, (db.eventsOf id).getLast? = some e ∧ e.status = .firing) ∧
      ∀ (event : Live.Event F) (listFails : Bool) (turns turns' : Int → Turn),
        (∀ q, q ≠ id → turns q = turns' q) → ∀ q, q ≠ id →
          Agree q (evaluateNow event listFails turns db).2
              (evaluateNow event listFails turns' db).2 ∧
            jobsOf q (evaluateNow event listFails turns db).1 =
              jobsOf q (evaluateNow event listFails turns' db).1 := by
  obtain ⟨closed, current, htr, hquiet⟩ := tracked_run id as
  refine ⟨⟨closed, current, htr.log, fun hoff => (hquiet hoff).1⟩, ?_, ?_, ?_, ?_⟩
  · rw [htr.log]
    exact log_prefix closed current
  · rw [htr.log]
    exact fun e he => recovered_iff he
  · rw [htr.log, last_firing_iff]
    exact htr.status
  · intro event listFails turns turns' hturns q hq
    exact evaluateRules_agree hturns hq _ ⟨rfl, rfl⟩

end TinyProbe.Alerting.Log
