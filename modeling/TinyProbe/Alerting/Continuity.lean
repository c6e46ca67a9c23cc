import TinyProbe.Alerting.Service
import TinyProbe.Lib.History

/-!
# Firing only after a continuous breach

A rule with a duration is meant to fire when it has been breached for that long as it is configured.
The pending state remembers an instant and nothing of the configuration, and `UpdateRule` leaves it
alone, so an edited or re-enabled rule can fire at once on a wait that belongs to its old self
(`edited_fires_early`).

Runs carry their past here: the instant of every step, the rule table after each of them, and the
calls that were started. `fires_after_breach` says that in runs that do not edit what a rule tests
while it is pending or held by a call, an episode opens only when the rule stood as it is, enabled,
and every update of its server was a breach, for the whole of the duration.

The invariant is `Waits`: since a pending rule's instant the table has held its row as it is, and
every update of its server since then was a breach, or is the one a call has still to take to the
rule.
-/

namespace TinyProbe.Alerting.Continuity

open TinyProbe.Run TinyProbe.History Service

variable {F : Type}

/-- The service and its past, newest first: the rule tables since each instant, and the calls of
`EvaluateNow` by the instant they were started. -/
structure Traced (F : Type) where
  service : Service F
  clock : Int
  tables : List (Int × List (Rule F))
  started : List (Int × Live.Event F)

/-- Nothing has happened before `t0`. -/
def initialAt (t0 : Int) : Traced F :=
  { service := Service.initial, clock := t0, tables := [], started := [] }

/-- The row of a rule in force at an instant. -/
def rowAt (w : Traced F) (id : Int) (u : Int) : Option (Rule F) :=
  (asOf u w.tables).bind fun rows => rows.find? (·.id == id)

/-- The fields `EvaluateNow` lists and tests a rule by. -/
structure SameTest (a b : Rule F) : Prop where
  serverID : a.serverID = b.serverID
  metric : a.metric = b.metric
  operator : a.operator = b.operator
  threshold : a.threshold = b.threshold
  enabled : a.enabled = b.enabled

theorem SameTest.refl (a : Rule F) : SameTest a a := ⟨rfl, rfl, rfl, rfl, rfl⟩

theorem SameTest.symm {a b : Rule F} (h : SameTest a b) : SameTest b a :=
  ⟨h.1.symm, h.2.symm, h.3.symm, h.4.symm, h.5.symm⟩

theorem SameTest.trans {a b c : Rule F} (h : SameTest a b) (h' : SameTest b c) : SameTest a c :=
  ⟨h.1.trans h'.1, h.2.trans h'.2, h.3.trans h'.3, h.4.trans h'.4, h.5.trans h'.5⟩

variable [Float64 F]

/-- Rules with one test are breached by the same events. -/
theorem SameTest.breachedBy {a b : Rule F} (h : SameTest a b) (event : Live.Event F) :
    breachedBy event a = breachedBy event b := by
  unfold Alerting.breachedBy breached
  rw [h.metric, h.operator, h.threshold]

/-- The calls in progress or done, after a step taken at `t`. -/
def startedAfter (w : Traced F) (t : Int) : Action F → List (Int × Live.Event F)
  | .start event _ => if w.service.todo.isEmpty then (t, event) :: w.started else w.started
  | _ => w.started

/-- A step of the service at an instant. -/
def step (w : Traced F) (a : Int × Action F) : Traced F :=
  let service := Service.step w.service a.2
  { service, clock := a.1, tables := (a.1, service.db.rules) :: w.tables
    started := startedAfter w a.1 a.2 }

/-- What the step must not do. The instants follow the clock (and no two calls start at the same
one); durations that get stored are within the handler's bound; an edit that gets stored leaves
alone what a rule tests while it is pending or held by the current call; and no store call fails
that would have seen the end of a breach. -/
def Continuous (w : Traced F) (a : Int × Action F) : Prop :=
  w.clock ≤ a.1 ∧
    match a.2 with
    | .createRule _ rule fails =>
      Repository.creates rule fails = true → rule.durationSeconds ≤ 86400
    | .updateRule _ rule fails _ => Repository.updates w.service.db rule fails = true →
      rule.durationSeconds ≤ 86400 ∧
        ∀ row, w.service.db.rule? rule.id = some row → ¬ SameTest rule row →
          w.service.db.statusOf rule.id ≠ .pending ∧ ∀ p ∈ w.service.todo, p.2.id ≠ rule.id
    | .start event listFails =>
      w.clock < a.1 ∧
        (listFails = true → ∀ row ∈ w.service.db.rules, row.serverID = event.snapshot.serverID →
          row.enabled = true → w.service.db.statusOf row.id = .pending →
          breachedBy event row = true)
    | .turn turn =>
      turn.now.ns = a.1 ∧
        ∀ event rule, w.service.todo.head? = some (event, rule) →
          w.service.db.statusOf rule.id = .pending → breachedBy event rule = false →
          turn.getStateFails = false ∧ turn.saveFails = false

/-- Since `since` the table has held this row of the rule, as far as its test goes. -/
def Stood (w : Traced F) (id : Int) (row : Rule F) (since : Int) : Prop :=
  ∀ u, since ≤ u → ∃ row', rowAt w id u = some row' ∧ SameTest row' row

/-- Every update of the row's server since `since` was a breach, or is the one the current call has
still to take to the rule. -/
def Breaching (w : Traced F) (id : Int) (row : Rule F) (since : Int) : Prop :=
  ∀ p ∈ w.started, since ≤ p.1 → p.2.type = .updated → p.2.snapshot.serverID = row.serverID →
    breachedBy p.2 row = true ∨ ∃ q ∈ w.service.todo, q.2.id = id ∧ q.1 = p.2

/-- A pending rule waits since then, and has been breached as it is ever since. -/
def Wait (w : Traced F) (id : Int) (since : Time) (row : Rule F) : Prop :=
  (w.service.db.stateOf id).pendingSince = some since ∧ since.ns ≤ w.clock ∧
    w.service.db.rule? id = some row ∧ row.enabled = true ∧ Stood w id row since.ns ∧
    Breaching w id row since.ns

/-- The current call is the newest, and started after all others. -/
def Current (w : Traced F) : Prop :=
  w.service.todo ≠ [] → ∃ t event rest, w.started = (t, event) :: rest ∧
    (∀ p ∈ rest, p.1 < t) ∧ ∀ q ∈ w.service.todo, q.1 = event

/-- What guarded runs keep of a rule. -/
structure Waits (id : Int) (w : Traced F) : Prop where
  scans : Repository.Scans w.service.db
  past : ∀ p ∈ w.started, p.1 ≤ w.clock
  table : ∀ u, w.clock ≤ u → rowAt w id u = w.service.db.rule? id
  current : Current w
  bound : ∀ row ∈ w.service.db.rules, row.durationSeconds ≤ 86400
  copies : ∀ q ∈ w.service.todo, q.2.id = id → q.2.durationSeconds ≤ 86400 ∧
    q.2.serverID = q.1.snapshot.serverID ∧ q.2.enabled = true ∧
    ∃ row, w.service.db.rule? id = some row ∧ SameTest row q.2
  pending : w.service.db.statusOf id = .pending → ∃ since row, Wait w id since row

/-! ## What one step does to the past -/

section Step

variable {w : Traced F} {t : Int} {a : Action F} {id : Int}

/-- A step says which row is in force from its own instant on, and nothing of earlier ones. -/
theorem rowAt_step (u : Int) :
    rowAt (step w (t, a)) id u =
      if t ≤ u then (step w (t, a)).service.db.rule? id else rowAt w id u := by
  unfold rowAt step
  simp only [asOf_cons]
  split
  next => rfl
  next => rfl

/-- The rule is pending, or the current call holds a copy of it. -/
def Busy (w : Traced F) (id : Int) : Prop :=
  w.service.db.statusOf id = .pending ∨ ∃ q ∈ w.service.todo, q.2.id = id

/-- A guarded step leaves what a busy rule tests. -/
theorem test_kept (hok : Continuous w (t, a)) {row : Rule F}
    (hrow : w.service.db.rule? id = some row) (hbusy : Busy w id) :
    ∃ row', (step w (t, a)).service.db.rule? id = some row' ∧ SameTest row' row := by
  rcases rule?_step w.service a hrow with h | ⟨now, rule, fails, stateFails, rfl, rfl, hupdates, h⟩
  · exact ⟨row, h, .refl row⟩
  · have hsame : SameTest rule row := by
      by_contra hne
      obtain ⟨hcalm, hcopies⟩ := (hok.2 hupdates).2 row hrow hne
      rcases hbusy with hpending | ⟨q, hq, hid⟩
      · exact hcalm hpending
      · exact hcopies q hq hid
    exact ⟨_, h, hsame.serverID, hsame.metric, hsame.operator, hsame.threshold, hsame.enabled⟩

/-- What stood keeps standing when the step leaves what the rule tests. -/
theorem Stood.step {row row' : Rule F} {since : Int} (h : Stood w id row since)
    (hrow' : (Continuity.step w (t, a)).service.db.rule? id = some row')
    (hsame : SameTest row' row) : Stood (Continuity.step w (t, a)) id row' since := by
  intro u hu
  rw [rowAt_step]
  split
  next => exact ⟨row', hrow', .refl row'⟩
  next =>
    obtain ⟨old, hold, hs⟩ := h u hu
    exact ⟨old, hold, hs.trans hsame.symm⟩

/-- No call is started after the clock, which does not go back. -/
theorem past_step (hok : Continuous w (t, a)) (h : ∀ p ∈ w.started, p.1 ≤ w.clock) :
    ∀ p ∈ (step w (t, a)).started, p.1 ≤ (step w (t, a)).clock := by
  have hold : ∀ p ∈ w.started, p.1 ≤ t := fun p hp => Int.le_trans (h p hp) hok.1
  intro p hp
  change p ∈ startedAfter w t a at hp
  cases a with
  | start event listFails =>
    simp only [startedAfter] at hp
    split at hp
    next =>
      rcases List.mem_cons.mp hp with rfl | hp
      · exact Int.le_refl t
      · exact hold p hp
    next => exact hold p hp
  | _ => exact hold p hp

/-- The call in progress stays the newest, since another starts only when none is, and later than
all before it. -/
theorem current_step (hok : Continuous w (t, a)) (hpast : ∀ p ∈ w.started, p.1 ≤ w.clock)
    (h : Current w) : Current (step w (t, a)) := by
  intro hne
  rcases todo_step w.service a with hsuffix | ⟨hnil, _, event, listFails, rfl, htodo⟩
  · have hold : w.service.todo ≠ [] := fun hnil => hne (by
      rw [hnil] at hsuffix
      exact List.suffix_nil.mp hsuffix)
    obtain ⟨t', event, rest, hstarted, hrest, htodo⟩ := h hold
    have hsame : (step w (t, a)).started = w.started := by
      cases a with
      | start event listFails =>
        simp only [step, startedAfter, List.isEmpty_iff, if_neg hold]
      | _ => rfl
    exact ⟨t', event, rest, hsame.trans hstarted, hrest, fun q hq => htodo q (hsuffix.subset hq)⟩
  · refine ⟨t, event, w.started, ?_, fun p hp => ?_, fun q hq => ?_⟩
    · simp only [step, startedAfter, hnil, List.isEmpty_nil, if_true]
    · exact Int.lt_of_le_of_lt (hpast p hp) hok.2.1
    · change q ∈ (Service.step w.service _).todo at hq
      rw [htodo] at hq
      obtain ⟨rule, _, rfl⟩ := List.mem_map.mp hq
      rfl

/-- No stored duration gets over the handler's bound. -/
theorem bound_step (hok : Continuous w (t, a))
    (h : ∀ row ∈ w.service.db.rules, row.durationSeconds ≤ 86400) :
    ∀ row ∈ (step w (t, a)).service.db.rules, row.durationSeconds ≤ 86400 := by
  intro row hrow
  change row ∈ (Service.step w.service a).db.rules at hrow
  cases a with
  | createRule now rule fails =>
    simp only [Service.step] at hrow
    rcases @Repository.createRule_db F w.service.db now rule fails with heq | ⟨hcreates, heq⟩
    · exact h row (heq ▸ hrow)
    · rw [heq] at hrow
      rcases List.mem_append.mp hrow with hrow | hrow
      · exact h row hrow
      · rw [List.mem_singleton.mp hrow]
        exact hok.2 hcreates
  | updateRule now rule fails stateFails =>
    simp only [Service.step] at hrow
    rcases @Repository.updateRule_db F w.service.db now rule fails stateFails with
      heq | ⟨hupdates, heq⟩
    · exact h row (heq ▸ hrow)
    · rw [heq] at hrow
      obtain ⟨old, hold, rfl⟩ := List.mem_map.mp hrow
      split
      next => exact (hok.2 hupdates).1
      next => exact h old hold
  | start event listFails =>
    simp only [Service.step] at hrow
    split at hrow <;> exact h row hrow
  | turn turn =>
    simp only [Service.step] at hrow
    split at hrow
    next => exact h row hrow
    next =>
      rw [rules_evaluateRule] at hrow
      exact h row hrow

/-- The copies of a rule that the current call holds keep the test of its row, since no guarded edit
changes it meanwhile. -/
theorem copies_step (hok : Continuous w (t, a)) (h : Waits id w) :
    ∀ q ∈ (step w (t, a)).service.todo, q.2.id = id → q.2.durationSeconds ≤ 86400 ∧
      q.2.serverID = q.1.snapshot.serverID ∧ q.2.enabled = true ∧
      ∃ row, (step w (t, a)).service.db.rule? id = some row ∧ SameTest row q.2 := by
  intro q hq hid
  rcases todo_step w.service a with hsuffix | ⟨_, hdb, event, listFails, _, htodo⟩
  · have hmem := hsuffix.subset hq
    obtain ⟨hbound, hserver, henabled, row, hrow, hsame⟩ := h.copies q hmem hid
    obtain ⟨row', hrow', hsame'⟩ := test_kept hok hrow (Or.inr ⟨q, hmem, hid⟩)
    exact ⟨hbound, hserver, henabled, row', hrow', hsame'.trans hsame⟩
  · change q ∈ (Service.step w.service a).todo at hq
    rw [htodo] at hq
    obtain ⟨rule, hrule, rfl⟩ := List.mem_map.mp hq
    obtain ⟨hrow, hserver, henabled⟩ := mem_listedRules hrule
    refine ⟨h.bound rule (Database.rule?_mem hrow), hserver, henabled, rule, ?_, .refl rule⟩
    change (Service.step w.service a).db.rule? id = some rule
    rw [hdb, ← hid]
    exact hrow

/-- A step keeps `Breaching` when what it starts is covered, and what it takes off the current call
was a breach. -/
theorem Breaching.step {row row' : Rule F} {since : Int} (h : Breaching w id row since)
    (hsame : SameTest row' row)
    (hnew : ∀ event, (t, event) ∈ startedAfter w t a → (t, event) ∉ w.started →
      event.type = .updated → event.snapshot.serverID = row'.serverID →
      breachedBy event row' = true ∨
        ∃ q ∈ (Continuity.step w (t, a)).service.todo, q.2.id = id ∧ q.1 = event)
    (hpop : ∀ q ∈ w.service.todo, q.2.id = id →
      q ∈ (Continuity.step w (t, a)).service.todo ∨
        (q.1.type = .updated → breachedBy q.1 row' = true)) :
    Breaching (Continuity.step w (t, a)) id row' since := by
  intro p hp hsince htype hserver
  by_cases hold : p ∈ w.started
  · rcases h p hold hsince htype (hserver.trans hsame.serverID) with hb | ⟨q, hq, hid, hev⟩
    · exact Or.inl (by rw [hsame.breachedBy]; exact hb)
    · rcases hpop q hq hid with hq' | hb
      · exact Or.inr ⟨q, hq', hid, hev⟩
      · exact Or.inl (by rw [← hev]; exact hb (by rw [hev]; exact htype))
  · have hp' : p ∈ startedAfter w t a := hp
    have ht : p = (t, p.2) := by
      cases a with
      | start event listFails =>
        simp only [startedAfter] at hp'
        split at hp'
        next =>
          rcases List.mem_cons.mp hp' with rfl | hp'
          · rfl
          · exact absurd hp' hold
        next => exact absurd hp' hold
      | _ => exact absurd hp' hold
    exact hnew p.2 (ht ▸ hp') (ht ▸ hold) htype hserver

/-! ## What one step does to a wait -/

/-- A step that writes no state of the rule and takes no turn of it keeps its wait. -/
theorem wait_quiet (hok : Continuous w (t, a)) (h : Waits id w)
    (hst : (step w (t, a)).service.db.stateOf id = w.service.db.stateOf id)
    (hnone : ∀ q ∈ w.service.todo, q.2.id = id → q ∈ (step w (t, a)).service.todo)
    (hpending : w.service.db.statusOf id = .pending) :
    ∃ since row, Wait (step w (t, a)) id since row := by
  obtain ⟨since, row, hsince, hle, hrow, henabled, hstood, hbreach⟩ := h.pending hpending
  obtain ⟨row', hrow', hsame⟩ := test_kept hok hrow (Or.inl hpending)
  refine ⟨since, row', by rw [hst]; exact hsince, Int.le_trans hle hok.1, hrow',
    by rw [hsame.enabled]; exact henabled, hstood.step hrow' hsame,
    hbreach.step hsame (fun event hmem hnot htype hserver => ?_)
      fun q hq hid => Or.inl (hnone q hq hid)⟩
  cases a with
  | start ev listFails =>
    simp only [startedAfter] at hmem
    split at hmem
    next hempty =>
      rcases List.mem_cons.mp hmem with heq | hmem
      · cases heq
        have hnil := List.isEmpty_iff.mp hempty
        have hstep : Service.step w.service (.start event listFails) =
            { w.service with todo := (listedRules event listFails w.service.db).map (event, ·) } := by
          simp only [Service.step, hnil]
        have hrw : row' = row := by
          change (Service.step w.service _).db.rule? id = some row' at hrow'
          rw [hstep] at hrow'
          exact Option.some.inj (hrow'.symm.trans hrow)
        subst hrw
        have hid := Database.rule?_id hrow
        cases hf : listFails with
        | true => exact Or.inl (hok.2.2 hf row' (Database.rule?_mem hrow) hserver.symm henabled
            (by rw [hid]; exact hpending))
        | false =>
          refine Or.inr ⟨(event, row'), ?_, hid, rfl⟩
          change (event, row') ∈ (Service.step w.service _).todo
          rw [← hf, hstep, hf]
          exact List.mem_map.mpr ⟨row', mem_listedRules_of h.scans (Database.rule?_mem hrow)
            hserver.symm henabled, rfl⟩
      · exact absurd hmem hnot
    next => exact absurd hmem hnot
  | _ => exact absurd hmem hnot

/-- The first instant of a wait: the current call brought the breach, and no call is as new. -/
theorem wait_first (h : Waits id w) (hle : w.clock ≤ t) {event : Live.Event F} {rule row : Rule F}
    (hhead : w.service.todo.head? = some (event, rule)) (hsame : SameTest row rule)
    (hbreached : breachedBy event rule = true) : Breaching w id row t := by
  intro p hp htp _ _
  have hmem := List.mem_of_head? hhead
  obtain ⟨t', event', rest, hstarted, hrest, htodo⟩ :=
    h.current (List.ne_nil_of_mem hmem)
  have ht' := h.past (t', event') (hstarted ▸ List.mem_cons_self)
  rw [hstarted] at hp
  rcases List.mem_cons.mp hp with rfl | hp
  · apply Or.inl
    rw [hsame.breachedBy, ← htodo _ hmem]
    exact hbreached
  · have := hrest p hp
    omega

/-- A turn of the rule keeps its wait, starts one, or ends it. -/
theorem wait_turn {turn : Turn} (hok : Continuous w (t, .turn turn)) (h : Waits id w)
    {event : Live.Event F}
    {rule : Rule F} {todo : List (Live.Event F × Rule F)}
    (htodo : w.service.todo = (event, rule) :: todo) (hid : rule.id = id)
    (hpending : (step w (t, .turn turn)).service.db.statusOf id = .pending) :
    ∃ since row, Wait (step w (t, .turn turn)) id since row := by
  subst hid
  have hhead : w.service.todo.head? = some (event, rule) := by rw [htodo, List.head?_cons]
  have hmem : (event, rule) ∈ w.service.todo := List.mem_of_head? hhead
  obtain ⟨_, hserver, henabled, row, hrow, hsame⟩ := h.copies _ hmem rfl
  have hrow' : (step w (t, .turn turn)).service.db.rule? rule.id = some row := by
    obtain ⟨row', hrow', _⟩ := test_kept hok hrow (Or.inr ⟨_, hmem, rfl⟩)
    rcases rule?_step w.service (.turn turn) hrow with hr | ⟨_, _, _, _, heq, _⟩
    · exact hr
    · cases heq
  have hdb : (step w (t, .turn turn)).service.db =
      (evaluateRule event rule turn w.service.db).2 := by
    simp only [step, Service.step, htodo]
  have hnext : (step w (t, .turn turn)).service.todo = todo := by
    simp only [step, Service.step, htodo]
  -- taking the head off the call leaves `Breaching` when the head was a breach
  have hbreach : ∀ since, (event.type = .updated → breachedBy event rule = true) →
      Breaching w rule.id row since → Breaching (step w (t, .turn turn)) rule.id row since := by
    intro since hbreached hb
    refine hb.step (.refl row) (fun ev hnew hold => absurd hnew hold) fun q hq hid => ?_
    rw [htodo] at hq
    rcases List.mem_cons.mp hq with rfl | hq
    · exact Or.inr fun htype => by rw [hsame.breachedBy]; exact hbreached htype
    · exact Or.inl (by rw [hnext]; exact hq)
  have hkeep : w.service.db.statusOf rule.id = .pending →
      ((step w (t, .turn turn)).service.db.stateOf rule.id).pendingSince =
        (w.service.db.stateOf rule.id).pendingSince →
      (event.type = .updated → breachedBy event rule = true) →
      ∃ since row, Wait (step w (t, .turn turn)) rule.id since row := by
    intro hp hst hbreached
    obtain ⟨since, row₀, hsince, hle, hrow₀, henabled, hstood, hb⟩ := h.pending hp
    cases Option.some.inj (hrow.symm.trans hrow₀)
    exact ⟨since, row, hst.trans hsince, Int.le_trans hle hok.1, hrow', henabled,
      hstood.step hrow' (.refl row), hbreach _ hbreached hb⟩
  rcases evaluateRule_cases event rule turn w.service.db with heq | ⟨_, heq⟩
  · rw [heq] at hdb
    simp only at hdb
    rw [hdb] at hpending
    refine hkeep hpending (by rw [hdb]) fun htype => ?_
    by_contra hcalm
    -- a calm turn that did not fail would have ended the wait
    obtain ⟨hget, hsave⟩ := hok.2.2 event rule hhead hpending (by simpa using hcalm)
    have hserver' : 1 ≤ event.snapshot.serverID := by
      have hv := h.scans.rules row (Database.rule?_mem hrow)
      simp only [validateRule, Bool.and_eq_true, decide_eq_true_eq] at hv
      rw [← hserver, ← hsame.serverID]
      exact hv.1.1.1.1
    have hadv : (evaluateRule event rule turn w.service.db).2 =
        advanced event rule turn w.service.db :=
      evaluateRule_ok h.scans
      (Database.rule?_id hrow ▸ (w.service.db.rules_bound row (Database.rule?_mem hrow)).1)
      hserver' (fun hoff => by rw [htype] at hoff; cases hoff) hget hsave
    rw [heq] at hadv
    simp only at hadv
    rw [hadv, statusOf_advanced] at hpending
    exact hcalm (resultOf_pending hpending).1
  · rw [heq] at hdb
    simp only at hdb
    rw [hdb, statusOf_advanced] at hpending
    obtain ⟨hbreached, hsince | ⟨hp, hsince⟩⟩ := resultOf_pending hpending
    · have hnow : turn.now.ns = t := hok.2.1
      refine ⟨turn.now, row, by rw [hdb, stateOf_advanced]; exact hsince,
        Int.le_of_eq hnow, hrow', hsame.enabled.trans henabled, fun u hu => ?_,
        hbreach _ (fun _ => hbreached) ?_⟩
      · rw [rowAt_step, if_pos (hnow ▸ hu)]
        exact ⟨row, hrow', .refl row⟩
      · rw [hnow]
        exact wait_first h hok.1 hhead hsame hbreached
    · refine hkeep hp ?_ fun _ => hbreached
      rw [hdb, stateOf_advanced]
      exact hsince

/-- **The step.** -/
theorem waits_step (hok : Continuous w (t, a)) (h : Waits id w) : Waits id (step w (t, a)) where
  scans := scans_step w.service a h.scans
  past := past_step hok h.past
  table := fun u hu => by rw [rowAt_step, if_pos (show t ≤ u from hu)]
  current := current_step hok h.past h.current
  bound := bound_step hok h.bound
  copies := copies_step hok h
  pending := fun hpending => by
    by_cases hturn : ∃ turn, a = .turn turn
    · obtain ⟨turn, rfl⟩ := hturn
      cases htodo : w.service.todo with
      | nil =>
        have hservice : (step w (t, .turn turn)).service = w.service := by
          simp only [step, Service.step, htodo]
        rw [hservice] at hpending
        exact wait_quiet hok h (by rw [hservice]) (fun q hq _ => by rw [hservice]; exact hq) hpending
      | cons head todo =>
        obtain ⟨event, rule⟩ := head
        by_cases hid : rule.id = id
        · exact wait_turn hok h htodo hid hpending
        · have hst : (step w (t, .turn turn)).service.db.stateOf id =
              w.service.db.stateOf id := by
            simp only [step, Service.step, htodo]
            exact Database.stateOf_congr (evaluateRule_frame event turn w.service.db (Ne.symm hid)).1
          rw [Database.statusOf, hst] at hpending
          refine wait_quiet hok h hst (fun q hq hq' => ?_) hpending
          rw [htodo] at hq
          rcases List.mem_cons.mp hq with rfl | hq
          · exact absurd hq' hid
          · simp only [step, Service.step, htodo]
            exact hq
    · obtain ⟨hst, htodo⟩ := step_of_not_turn (fun turn ha => hturn ⟨turn, ha⟩) id
      apply wait_quiet hok h hst (fun q hq _ => htodo q hq)
      rwa [Database.statusOf, ← hst]

end Step

/-- At first there is no rule that could be pending. -/
theorem waits_initial (t0 : Int) (id : Int) : Waits id (initialAt t0 : Traced F) where
  scans := Repository.scans_empty
  past := fun _ h => absurd h List.not_mem_nil
  table := fun _ _ => rfl
  current := fun h => absurd rfl h
  bound := fun _ h => absurd h List.not_mem_nil
  copies := fun _ h => absurd h List.not_mem_nil
  pending := fun h => by
    rw [initialAt, Database.statusOf, Service.initial, Database.stateOf_empty] at h
    cases h

/-! ## Where an episode opens -/

/-- The step from `w` to `w'` is a turn of the rule on the event, and opens an episode. -/
structure Opens (w w' : Traced F) (event : Live.Event F) (rule : Rule F) : Prop where
  head : w.service.todo.head? = some (event, rule)
  before : w.service.db.statusOf rule.id ≠ .firing
  after : w'.service.db.statusOf rule.id = .firing

/-- At every instant between the two the rule stood in the table as it is here, enabled, and every
update of its server in a call that was started then is a breach. -/
def BreachedThroughout (w : Traced F) (rule : Rule F) (lo hi : Int) : Prop :=
  (∀ u, lo ≤ u → u ≤ hi → ∃ row, rowAt w rule.id u = some row ∧ row.enabled = true ∧
    SameTest row rule) ∧
  ∀ p ∈ w.started, lo ≤ p.1 → p.1 ≤ hi → p.2.type = .updated →
    p.2.snapshot.serverID = rule.serverID → breachedBy p.2 rule = true

/-- **An episode opens only after a continuous breach.** In runs that leave alone what a pending or
held rule tests, a turn opens an episode of a rule with a duration only when the rule stood as it
is, and was breached, throughout that duration. -/
theorem fires_after_breach (t0 t : Int) (as : List (Int × Action F)) (turn : Turn)
    (hrun : Guarded step Continuous (initialAt t0) (as ++ [(t, .turn turn)]))
    (event : Live.Event F) (rule : Rule F)
    (hopens : Opens (run step (initialAt t0) as)
      (run step (initialAt t0) (as ++ [(t, .turn turn)])) event rule)
    (hmetric : rule.metric ≠ .offline) (hd : 0 < rule.durationSeconds) :
    BreachedThroughout (run step (initialAt t0) (as ++ [(t, .turn turn)])) rule
      (turn.now.ns - rule.durationSeconds * 1000000000) turn.now.ns := by
  obtain ⟨hrun, hok⟩ := guarded_snoc.mp hrun
  have h : Waits rule.id (run step (initialAt t0) as) :=
    hrun.invariant (fun w _ hok (hw : Waits rule.id w) => waits_step hok hw)
      (waits_initial t0 rule.id)
  rw [run_snoc] at hopens ⊢
  generalize run step (initialAt t0) as = w at *
  obtain ⟨hhead, hbefore, hafter⟩ := hopens
  obtain ⟨todo, htodo⟩ := List.head?_eq_some_iff.mp hhead
  have hmem := List.mem_of_head? hhead
  obtain ⟨hbound, _, henabled, row, hrow, hsame⟩ := h.copies _ hmem rfl
  have hbound : rule.durationSeconds ≤ 604800 := Int.le_trans hbound (by decide)
  have hdb : (step w (t, .turn turn)).service.db =
      (evaluateRule event rule turn w.service.db).2 := by
    simp only [step, Service.step, htodo]
  rcases evaluateRule_cases event rule turn w.service.db with heq | ⟨_, heq⟩
  · rw [hdb, heq] at hafter
    exact absurd hafter hbefore
  rw [hdb, heq, statusOf_advanced] at hafter
  obtain ⟨hbreached, hzero | ⟨hpending, since, hsince, hheld⟩⟩ := resultOf_opens hbefore hafter
  · rw [durationForRule, if_neg hmetric, ← Int64.not_lt] at hzero
    exact absurd (Time.seconds_pos hd (by omega)) hzero
  rw [durationForRule, if_neg hmetric, Time.sub_lt_iff (Time.seconds_pos hd (by omega)),
    Time.toInt_seconds (Int.le_of_lt hd) (by omega)] at hheld
  obtain ⟨since', row', hsince', _, hrow', _, hstood, hbreach⟩ := h.pending hpending
  cases Option.some.inj (hsince.symm.trans hsince')
  cases Option.some.inj (hrow.symm.trans hrow')
  have hrow_after : (step w (t, .turn turn)).service.db.rule? rule.id = some row := by
    rw [hdb, Database.rule?_congr rules_evaluateRule]
    exact hrow
  refine ⟨fun u hu _ => ?_, fun p hp hlo _ htype hserver => ?_⟩
  · obtain ⟨row', hrow', hsame'⟩ := hstood.step hrow_after (.refl row) u (by omega)
    exact ⟨row', hrow', (hsame'.trans hsame).enabled.trans henabled, hsame'.trans hsame⟩
  · rw [← hsame.breachedBy]
    rcases hbreach p hp (by omega) htype (hserver.trans hsame.serverID.symm) with hb | ⟨q, hq, _, hev⟩
    · exact hb
    · obtain ⟨_, event', _, _, _, hall⟩ := h.current (List.ne_nil_of_mem hmem)
      rw [← hev, hall q hq, ← hall _ hmem, hsame.breachedBy]
      exact hbreached

/-- A step at `t` seconds. -/
def second (t : Int) (a : Action F) : Int × Action F := (t * 1000000000, a)

/-- A CPU rule of 60 seconds over 90 is breached at 1, 30 and 61 seconds. -/
def steady : List (Int × Action Exact) :=
  [second 0 (.createRule .zero (ruleOn 1 .cpuUsage (.fin 90) 60) false),
    second 1 (startOn 1 true (.fin 95)), second 1 (turnAt 1),
    second 30 (startOn 1 true (.fin 92)), second 30 (turnAt 30),
    second 61 (startOn 1 true (.fin 99))]

theorem steady_fires :
    Opens (run step (initialAt 0) steady)
        (run step (initialAt 0) (steady ++ [second 61 (.turn (okAt 61))]))
        (eventOn 1 true (.fin 99)) (ruleOn 1 .cpuUsage (.fin 90) 60) ∧
      BreachedThroughout (run step (initialAt 0) (steady ++ [second 61 (.turn (okAt 61))]))
        (ruleOn 1 .cpuUsage (.fin 90) 60) 1000000000 61000000000 := by
  have hopens : Opens (run step (initialAt 0) steady)
      (run step (initialAt 0) (steady ++ [second 61 (.turn (okAt 61))]))
      (eventOn 1 true (.fin 99)) (ruleOn 1 .cpuUsage (.fin 90) 60) :=
    ⟨by decide +kernel, by decide +kernel, by decide +kernel⟩
  refine ⟨hopens, fires_after_breach 0 (61 * 1000000000) steady (okAt 61) ?_ _ _ hopens
    (by decide) (by decide)⟩
  exact ⟨⟨by decide, fun _ => show (60 : Int) ≤ 86400 by decide⟩, ⟨by decide, by decide, nofun⟩,
    ⟨by decide, rfl, fun _ _ _ _ _ => ⟨rfl, rfl⟩⟩, ⟨by decide, by decide, nofun⟩,
    ⟨by decide, rfl, fun _ _ _ _ _ => ⟨rfl, rfl⟩⟩, ⟨by decide, by decide, nofun⟩,
    ⟨by decide, rfl, fun _ _ _ _ _ => ⟨rfl, rfl⟩⟩, trivial⟩

/-- The rule waits over 10 from second 1, and is set to 90 at second 40. -/
def edited : List (Int × Action Exact) :=
  [second 0 (.createRule .zero (ruleOn 1 .cpuUsage (.fin 10) 60) false),
    second 1 (startOn 1 true (.fin 20)), second 1 (turnAt 1),
    second 40 (.updateRule .zero (ruleOn 1 .cpuUsage (.fin 90) 60) false false),
    second 61 (startOn 1 true (.fin 99))]

/-- It fires at second 61, with a threshold it has had for 21 seconds. -/
theorem edited_fires_early :
    Opens (run step (initialAt 0) edited)
        (run step (initialAt 0) (edited ++ [second 61 (.turn (okAt 61))]))
        (eventOn 1 true (.fin 99)) (ruleOn 1 .cpuUsage (.fin 90) 60) ∧
      ¬ BreachedThroughout (run step (initialAt 0) (edited ++ [second 61 (.turn (okAt 61))]))
        (ruleOn 1 .cpuUsage (.fin 90) 60) 1000000000 61000000000 := by
  refine ⟨⟨by decide +kernel, by decide +kernel, by decide +kernel⟩, fun h => ?_⟩
  have hrow : (rowAt (run step (initialAt 0) (edited ++ [second 61 (.turn (okAt 61))])) 1
      2000000000).map Rule.threshold = some (.fin 10) := by decide +kernel
  obtain ⟨row, hat, _, hsame⟩ := h.1 2000000000 (by decide) (by decide)
  rw [show (ruleOn 1 .cpuUsage (Exact.fin 90) 60).id = 1 from rfl] at hat
  rw [hat, Option.map_some, hsame.threshold] at hrow
  exact absurd hrow (by decide +kernel)

end TinyProbe.Alerting.Continuity
