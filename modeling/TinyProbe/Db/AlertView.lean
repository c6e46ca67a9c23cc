import TinyProbe.Db.Cascade

/-!
# The event history over the tables

`EventStore` is the event history with three tables of its own, each write checked against the keys
it refers to. This module shows it in the tables of the schema: `Sees` says that an event history
has what the tables have, and each of the three operations of an event history, `UpdateRule`,
`SaveStateAndEvent` and `RecordAttempt`, keeps it (`Sees.step`): the transaction on the tables and
the step of the event history have the same effect, whether they are refused for their input, for a
key, or for a reason outside the program.

The tables have an event history (`sees_eventStore`), so what is proved of event histories holds of
the tables, after any calls of the other services.
-/

namespace TinyProbe.Db

open Alerting Run

variable {D F : Type}

namespace Tables

/-- `alert_rules`. -/
def rules (t : Tables D F) : List (Rule F) := t.rows.filterMap Row.rule?

/-- `alert_events`. -/
def events (t : Tables D F) : List (Event F) := t.rows.filterMap Row.event?

/-- `webhook_attempts`. -/
def attempts (t : Tables D F) : List Attempt := t.rows.filterMap Row.attempt?

/-- The row of `alert_states` of a rule. -/
def state? (t : Tables D F) (ruleID : Int) : Option (State F) :=
  (t.rows.filterMap Row.state?).find? (·.ruleID == ruleID)

/-- The row of `servers` of an id. -/
def server? (t : Tables D F) (id : Int) : Option (ServerRow D) :=
  (t.rows.filterMap Row.server?).find? (·.id == id)

/-- The event history has what the tables have. -/
structure Sees (t : Tables D F) (s : EventStore F) : Prop where
  rules : s.db.rules = t.rules
  states : ∀ id, s.db.state? id = t.state? id
  events : s.db.events = t.events
  nextEventID : s.db.nextEventID = t.sequence .events + 1
  servers : ∀ id, AList.lookup id s.servers = (t.server? id).map ServerRow.name
  attempts : s.attempts = t.attempts
  nextAttemptID : s.nextAttemptID = t.sequence .attempts + 1

/-- The call that a step of the event history stands for. -/
def ofAction : EventStore.Action F → Call D F
  | .updateRule now rule fails _ =>
    ⟨if rule.id < 1 ∨ validateRule rule = false then [] else [.updateRule rule now], fails⟩
  | .saveStateAndEvent now state event fails =>
    ⟨if state.ruleID < 1 ∨ validStatus state.status = false ∨
        event.any (fun e => decide (e.ruleID < 1 ∨ e.serverID < 1) || !validStatus e.status) then []
      else .upsertState { state with updatedAt := now } :: event.toList.map fun e =>
        .insertEvent { e with createdAt := if e.createdAt = .zero then now else e.createdAt },
      fails⟩
  | .recordAttempt now attempt fails =>
    ⟨if attempt.attempt < 1 ∨ attempt.eventID.any (· < 1) then []
      else [.insertAttempt
        { attempt with sentAt := if attempt.sentAt = .zero then now else attempt.sentAt }],
      fails⟩

section Selectors

variable {t : Tables D F} {s : EventStore F}

/-- Rows that a replacement leaves alone. -/
theorem filterMap_replace {B : Type} {p : Row D F → Bool} {f : Row D F → Row D F}
    {sel : Row D F → Option B} (rows : List (Row D F))
    (h : ∀ row, p row = true → sel (f row) = sel row) :
    (rows.map fun row => if p row then f row else row).filterMap sel = rows.filterMap sel := by
  rw [List.filterMap_map]
  refine List.filterMap_congr fun row _ => ?_
  rw [Function.comp_apply]
  split
  next hp => exact h row hp
  next => rfl

variable [DecidableEq D]

/-! ### The keys, as both levels have them -/

theorem Sees.hasRule (h : t.Sees s) (id : Int) :
    s.hasRule id = (schema D F).has t.rows (.rule id) := by
  have hiff : (schema D F).has t.rows (.rule id) = true ↔ _ := Kind.rule.has_iff
  refine Bool.eq_iff_iff.mpr (Iff.trans ?_ hiff.symm)
  rw [EventStore.hasRule, Database.rule?, h.rules, List.find?_isSome]
  simp only [beq_iff_eq]
  exact Iff.rfl

/-- The servers of the history are those of the table. -/
theorem Sees.hasServer (h : t.Sees s) (id : Int) :
    s.hasServer id = (schema D F).has t.rows (.server id) := by
  have hiff : (schema D F).has t.rows (.server id) = true ↔ _ := Kind.server.has_iff
  refine Bool.eq_iff_iff.mpr (Iff.trans ?_ hiff.symm)
  rw [EventStore.hasServer, h.servers, Option.isSome_map, server?, List.find?_isSome]
  simp only [beq_iff_eq]
  exact Iff.rfl

/-- Its events are those of the table. -/
theorem Sees.hasEvent (h : t.Sees s) (id : Int) :
    s.hasEvent id = (schema D F).has t.rows (.event id) := by
  have hiff : (schema D F).has t.rows (.event id) = true ↔ _ := Kind.event.has_iff
  refine Bool.eq_iff_iff.mpr (Iff.trans ?_ hiff.symm)
  rw [EventStore.hasEvent, h.events, List.any_eq_true]
  simp only [beq_iff_eq]
  exact Iff.rfl

/-! ### What the statements of the alert repository do -/

theorem insertSerial_eq (h : t.Sound) {table : Serial} {row : Int → Row D F}
    (hkey : ∀ id, (row id).key = Serial.key table id) :
    t.insertSerial table row =
      if (schema D F).resolves t.rows (row (t.sequence table + 1)) then
        some { rows := t.rows ++ [row (t.sequence table + 1)]
               sequence := Function.update t.sequence table (t.sequence table + 1) }
      else none := by
  have hfresh : (schema D F).has t.rows ((schema D F).key (row (t.sequence table + 1))) = false := by
    rw [← Bool.not_eq_true, Schema.has_iff]
    rintro ⟨other, hother, heq⟩
    exact h.fresh (hkey _) (List.mem_map.mpr ⟨other, hother, heq⟩)
  unfold insertSerial Schema.insert
  dsimp only
  rw [hfresh]
  cases (schema D F).resolves t.rows (row (t.sequence table + 1)) <;> rfl

private theorem replace_eq_some {k : Key D} {f : Row D F → Row D F} (h : t.Sound)
    (hresolves : ∀ row ∈ t.rows, row.key = k → (schema D F).resolves t.rows (f row) = true) :
    t.replace k f =
      some { t with rows := t.rows.map fun row => if decide (row.key = k) then f row else row } := by
  refine Option.map_eq_some_iff.mpr ⟨_, Schema.replace_eq_some.mpr ⟨rfl, fun row hrow => ?_⟩, rfl⟩
  obtain ⟨old, hold, rfl⟩ := List.mem_map.mp hrow
  split
  next hkey => exact hresolves old hold (of_decide_eq_true hkey)
  next => exact h.intact old hold

private theorem replace_eq_none {k : Key D} {f : Row D F → Row D F} {row : Row D F}
    (hrow : row ∈ t.rows)
    (hkey : row.key = k) (hdangling : (schema D F).resolves t.rows (f row) = false) :
    t.replace k f = none := by
  rw [← Option.not_isSome_iff_eq_none, Option.isSome_iff_exists]
  rintro ⟨t', h⟩
  obtain ⟨rows, hrows, rfl⟩ := Option.map_eq_some_iff.mp h
  obtain ⟨rfl, hall⟩ := Schema.replace_eq_some.mp hrows
  have := hall _ (List.mem_map_of_mem hrow)
  rw [if_pos (decide_eq_true hkey), hdangling] at this
  cases this

/-- What `UPDATE alert_rules` makes of a row. -/
def onRule (f : Rule F → Rule F) : Row D F → Row D F
  | .rule row => .rule (f row)
  | row => row

/-- `UPDATE alert_rules`: without the server nothing is written, be there a rule or not. -/
theorem step_updateRule (h : t.Sound) (rule : Rule F) (now : Time) :
    t.step ⟨[.updateRule rule now], false⟩ =
      if (schema D F).has t.rows (.server rule.serverID) then
        { t with
          rows := t.rows.map fun row => if decide (row.key = .rule rule.id) then
            onRule (Repository.updatedRow now rule) row else row }
      else t := by
  show ((t.replace (.rule rule.id) (onRule (Repository.updatedRow now rule))).bind _).getD t = _
  have hrefs : ∀ row : Row D F, row.key = .rule rule.id →
      (schema D F).resolves t.rows (onRule (Repository.updatedRow now rule) row) =
        (schema D F).has t.rows (.server rule.serverID) := fun row hkey => by
    obtain ⟨old, rfl, -⟩ := key_rule hkey
    exact Bool.and_true _
  cases hserver : (schema D F).has t.rows (.server rule.serverID) with
  | true => rw [replace_eq_some h fun row _ hkey => (hrefs row hkey).trans hserver]; rfl
  | false =>
    by_cases hrow : ∃ row ∈ t.rows, row.key = .rule rule.id
    · obtain ⟨row, hrow, hkey⟩ := hrow
      rw [replace_eq_none hrow hkey ((hrefs row hkey).trans hserver)]
      rfl
    · have hother : ∀ row ∈ t.rows, row.key ≠ .rule rule.id := fun row hmem hkey =>
        hrow ⟨row, hmem, hkey⟩
      rw [replace_eq_some h fun row hmem hkey => absurd hkey (hother row hmem)]
      refine congrArg (fun rows => Tables.mk rows t.sequence) ?_
      refine (List.map_congr_left fun row hmem => ?_).trans (List.map_id _)
      exact if_neg (by rw [decide_eq_true_eq]; exact hother row hmem)

/-- `INSERT INTO webhook_attempts`. -/
theorem exec_insertAttempt (h : t.Sound) (attempt : Attempt) :
    t.exec (.insertAttempt attempt) =
      if attempt.eventID.all fun id => (schema D F).has t.rows (.event id) then
        some { rows := t.rows ++ [.attempt { attempt with id := t.sequence .attempts + 1 }]
               sequence := Function.update t.sequence .attempts (t.sequence .attempts + 1) }
      else none := by
  have hrefs : (schema D F).resolves t.rows
      (.attempt { attempt with id := t.sequence .attempts + 1 } : Row D F) =
        attempt.eventID.all fun id => (schema D F).has t.rows (.event id) := by
    cases heq : attempt.eventID with
    | none => simp [Schema.resolves, schema, Row.refs]
    | some id => simp [Schema.resolves, schema, Row.refs]
  rw [exec, insertSerial_eq h fun _ => rfl, hrefs]

/-- `INSERT INTO alert_events`. -/
theorem exec_insertEvent (h : t.Sound) (event : Event F) :
    t.exec (.insertEvent event) =
      if (schema D F).has t.rows (.rule event.ruleID) &&
          (schema D F).has t.rows (.server event.serverID) then
        some { rows := t.rows ++ [.event { event with id := t.sequence .events + 1 }]
               sequence := Function.update t.sequence .events (t.sequence .events + 1) }
      else none := by
  have hrefs : (schema D F).resolves t.rows
      (.event { event with id := t.sequence .events + 1 } : Row D F) =
        ((schema D F).has t.rows (.rule event.ruleID) &&
          (schema D F).has t.rows (.server event.serverID)) := by
    simp [Schema.resolves, schema, Row.refs]
  rw [exec, insertSerial_eq h fun _ => rfl, hrefs]

/-- `INSERT INTO alert_states ... ON CONFLICT`. -/
structure StateWritten (t : Tables D F) (state : State F) (t' : Tables D F) : Prop where
  sound : t'.Sound
  sequence : t'.sequence = t.sequence
  rules : t'.rules = t.rules
  events : t'.events = t.events
  attempts : t'.attempts = t.attempts
  servers : ∀ id, t'.server? id = t.server? id
  state : ∀ id, t'.state? id = if id = state.ruleID then some state else t.state? id
  keys : ∀ k, (∀ ruleID, k ≠ .state ruleID) →
    (schema D F).has t'.rows k = (schema D F).has t.rows k

/-- What the update of a state row makes of a row. -/
def onState (state : State F) : Row D F → Row D F
  | .state row => .state { state with ruleID := row.ruleID }
  | row => row

/-- Rows that keep their keys stand under them. -/
theorem has_map {f : Row D F → Row D F} (hkey : ∀ row, (f row).key = row.key)
    (p : Row D F → Bool) (rows : List (Row D F)) (k : Key D) :
    (schema D F).has (rows.map fun row => if p row then f row else row) k =
      (schema D F).has rows k := by
  unfold Schema.has
  rw [List.any_map]
  refine congrArg (fun q => rows.any q) (funext fun row => congrArg (· == k) ?_)
  show Row.key (if p row then f row else row) = row.key
  split
  next => exact hkey row
  next => rfl

/-- The upsert replaces the row of a state that was saved before. -/
theorem stateWritten_replace (h : t.Sound) {state : State F}
    (hhas : (schema D F).has t.rows (.state state.ruleID) = true) :
    ∃ t', t.exec (.upsertState state) = some t' ∧ t.StateWritten state t' := by
  obtain ⟨row, hrow, hkey⟩ := Schema.has_iff.mp hhas
  obtain ⟨old, rfl, hold⟩ := (Kind.state.key_iff _ _).mp hkey
  have hkeys : ∀ row : Row D F, (onState state row).key = row.key := fun row => by
    cases row <;> rfl
  have hrun := replace_eq_some (k := .state state.ruleID) (f := onState state) h
    fun row hmem hkey => by
      obtain ⟨row, rfl, -⟩ := (Kind.state.key_iff _ _).mp hkey
      have hresolves := h.intact (.state row) hmem
      exact hresolves
  have hexec : t.exec (.upsertState state) = _ := (if_pos hhas).trans hrun
  refine ⟨_, hexec, ?_⟩
  have hsel : ∀ {B : Type} {sel : Row D F → Option B}, (∀ row, sel (onState state row) = sel row) →
      (t.rows.map fun row => if decide (row.key = .state state.ruleID) then onState state row
        else row).filterMap sel = t.rows.filterMap sel := fun h =>
    filterMap_replace t.rows fun row _ => h row
  exact
    { sound := h.change (exec_change hexec)
      sequence := rfl
      rules := hsel fun row => by cases row <;> rfl
      events := hsel fun row => by cases row <;> rfl
      attempts := hsel fun row => by cases row <;> rfl
      servers := fun id => congrArg (List.find? _) (hsel fun row => by cases row <;> rfl)
      keys := fun k _ => has_map hkeys _ _ k
      state := by
        intro id
        have hmap : (t.rows.map fun row => if decide (row.key = .state state.ruleID) then
            onState state row else row).filterMap Row.state? = (t.rows.filterMap Row.state?).map
              fun row => if row.ruleID = state.ruleID then { state with ruleID := row.ruleID }
                else row := by
          rw [List.filterMap_map, List.map_filterMap]
          refine List.filterMap_congr fun row _ => ?_
          rw [Function.comp_apply]
          cases row with
          | state row =>
            show _ = some (if row.ruleID = state.ruleID then _ else _)
            split
            next hkey =>
              rw [if_pos (Key.state.inj (of_decide_eq_true hkey))]
              rfl
            next hkey =>
              rw [if_neg fun hid => hkey (decide_eq_true (congrArg Key.state hid))]
              rfl
          | _ => split <;> rfl
        show (List.filterMap Row.state? _).find? _ = _
        rw [hmap, Table.find?_map State.ruleID fun row => by split <;> rfl]
        have hfind : ∃ row, t.state? state.ruleID = some row := by
          refine Option.isSome_iff_exists.mp (List.find?_isSome.mpr ⟨old, Kind.state.mem.mpr hrow, ?_⟩)
          exact beq_iff_eq.mpr hold
        by_cases hid : id = state.ruleID
        · obtain ⟨row, hrow⟩ := hfind
          subst hid
          have hrowID : row.ruleID = state.ruleID := Table.key_of_find? State.ruleID hrow
          rw [if_pos rfl]
          show (t.state? state.ruleID).map _ = _
          rw [hrow, Option.map_some, if_pos hrowID, hrowID]
        · rw [if_neg hid]
          show (t.state? id).map _ = t.state? id
          cases hrow : t.state? id with
          | none => rfl
          | some row =>
            have hrowID : row.ruleID = id := Table.key_of_find? State.ruleID hrow
            rw [Option.map_some, if_neg (hrowID ▸ hid)] }

/-- It inserts the row of a rule's first state. -/
theorem stateWritten_insert (h : t.Sound) {state : State F}
    (hhas : (schema D F).has t.rows (.state state.ruleID) = false)
    (hrule : (schema D F).has t.rows (.rule state.ruleID) = true) :
    ∃ t', t.exec (.upsertState state) = some t' ∧ t.StateWritten state t' := by
  have hresolves : (schema D F).resolves t.rows (.state state) = true := by
    simpa [Schema.resolves, schema, Row.refs] using hrule
  have hrun : t.insert (.state state) = some { t with rows := t.rows ++ [.state state] } :=
    Option.map_eq_some_iff.mpr ⟨_, Schema.insert_eq_some.mpr ⟨hhas, hresolves, rfl⟩, rfl⟩
  have hexec : t.exec (.upsertState state) = _ :=
    (if_neg (Bool.eq_false_iff.mp hhas)).trans hrun
  refine ⟨_, hexec, ?_⟩
  have hsel : ∀ {B : Type} {sel : Row D F → Option B}, sel (.state state) = none →
      (t.rows ++ [Row.state state]).filterMap sel = t.rows.filterMap sel := fun h => by
    rw [List.filterMap_append, List.filterMap_cons_none h, List.filterMap_nil, List.append_nil]
  exact
    { sound := h.change (exec_change hexec)
      sequence := rfl
      rules := hsel rfl
      events := hsel rfl
      attempts := hsel rfl
      servers := fun id => congrArg (List.find? _) (hsel rfl)
      keys := fun k hk => by
        simp only [Schema.has, List.any_append, List.any_cons, List.any_nil, Bool.or_false]
        have hother : ((schema D F).key (Row.state state : Row D F) == k) = false :=
          beq_eq_false_iff_ne.mpr (hk state.ruleID).symm
        rw [hother, Bool.or_false]
      state := by
        intro id
        show (List.filterMap Row.state? (t.rows ++ [.state state])).find? _ = _
        rw [List.filterMap_append]
        refine (Table.find?_append State.ruleID state fun row hrow heq => ?_).trans
          (if_congr eq_comm rfl rfl)
        have hkey : (Row.state row : Row D F).key = .state state.ruleID := congrArg Key.state heq
        rw [Schema.has_iff.mpr ⟨_, Kind.state.mem.mp hrow, hkey⟩] at hhas
        cases hhas }

/-- `INSERT INTO alert_states ... ON CONFLICT` succeeds when the rule exists. -/
theorem exec_upsertState (h : t.Sound) (state : State F) :
    ((schema D F).has t.rows (.rule state.ruleID) = true ∧
        ∃ t', t.exec (.upsertState state) = some t' ∧ t.StateWritten state t') ∨
      ((schema D F).has t.rows (.rule state.ruleID) = false ∧
        t.exec (.upsertState state) = none) := by
  cases hhas : (schema D F).has t.rows (.state state.ruleID) with
  | true =>
    obtain ⟨row, hrow, hkey⟩ := Schema.has_iff.mp hhas
    obtain ⟨old, rfl, hold⟩ := (Kind.state.key_iff _ _).mp hkey
    have hrule := Schema.resolves_iff.mp (h.intact _ hrow) (.rule old.ruleID)
      (List.mem_singleton_self _)
    exact Or.inl ⟨Schema.has_iff.mpr (hold ▸ hrule), stateWritten_replace h hhas⟩
  | false =>
    cases hrule : (schema D F).has t.rows (.rule state.ruleID) with
    | true => exact Or.inl ⟨rfl, stateWritten_insert h hhas hrule⟩
    | false =>
      refine Or.inr ⟨rfl, (if_neg (Bool.eq_false_iff.mp hhas)).trans ?_⟩
      have hresolves : (schema D F).resolves t.rows (.state state) = false := by
        simpa [Schema.resolves, schema, Row.refs] using hrule
      unfold insert Schema.insert
      rw [hresolves, Bool.not_false, Bool.or_true, if_pos rfl]
      rfl

/-! ### The calls -/

omit [DecidableEq D] in
/-- An event is added to the history and to the table. -/
theorem Sees.appendEvent (h : t.Sees s) (event : Event F) :
    Sees { rows := t.rows ++ [.event { event with id := t.sequence .events + 1 }]
           sequence := Function.update t.sequence .events (t.sequence .events + 1) }
      { s with db := s.db.insertEvent event } where
  rules := h.rules.trans (by simp [Tables.rules, Row.rule?])
  states := fun id => (h.states id).trans (by simp [Tables.state?, Row.state?])
  events := by
    show s.db.events ++ [{ event with id := s.db.nextEventID }] = _
    rw [h.events, h.nextEventID]
    simp [Tables.events, Row.event?]
  nextEventID := by
    show s.db.nextEventID + 1 = _
    rw [h.nextEventID]
    simp
  servers := fun id => (h.servers id).trans (by simp [Tables.server?, Row.server?])
  attempts := h.attempts.trans (by simp [Tables.attempts, Row.attempt?])
  nextAttemptID := h.nextAttemptID

omit [DecidableEq D] in
/-- An attempt is added to the log and to the table. -/
theorem Sees.appendAttempt (h : t.Sees s) (attempt : Attempt) :
    Sees { rows := t.rows ++ [.attempt { attempt with id := t.sequence .attempts + 1 }]
           sequence := Function.update t.sequence .attempts (t.sequence .attempts + 1) }
      { s with attempts := s.attempts ++ [{ attempt with id := s.nextAttemptID }]
               nextAttemptID := s.nextAttemptID + 1 } where
  rules := h.rules.trans (by simp [Tables.rules, Row.rule?])
  states := fun id => (h.states id).trans (by simp [Tables.state?, Row.state?])
  events := h.events.trans (by simp [Tables.events, Row.event?])
  nextEventID := h.nextEventID
  servers := fun id => (h.servers id).trans (by simp [Tables.server?, Row.server?])
  attempts := by
    rw [h.attempts, h.nextAttemptID]
    simp [Tables.attempts, Row.attempt?]
  nextAttemptID := by
    rw [h.nextAttemptID]
    simp

/-- The tables after `UpdateRule` of the event history. -/
theorem updateRule_written {now : Time} {rule : Rule F} {stateFails : Bool}
    (hinput : ¬ (rule.id < 1 ∨ validateRule rule = false)) :
    (Repository.updateRule s.db now rule false stateFails).2.rules =
        s.db.rules.map (fun row => if row.id = rule.id then
          { Repository.updatedRow now rule row with id := row.id } else row) ∧
      (Repository.updateRule s.db now rule false stateFails).2.states = s.db.states ∧
      (Repository.updateRule s.db now rule false stateFails).2.events = s.db.events ∧
      (Repository.updateRule s.db now rule false stateFails).2.nextEventID = s.db.nextEventID := by
  unfold Repository.updateRule
  rw [if_neg hinput, if_neg Bool.false_ne_true]
  split
  next hnone =>
    refine ⟨?_, rfl, rfl, rfl⟩
    refine ((List.map_congr_left fun row hrow => ?_).trans (List.map_id _)).symm
    have := List.find?_eq_none.mp hnone row hrow
    exact if_neg fun hid => this (beq_iff_eq.mpr hid)
  next => dsimp only; split <;> exact ⟨rfl, rfl, rfl, rfl⟩

/-- `UpdateRule` has the same effect on the history and on the tables. -/
theorem Sees.updateRule (h : t.Sees s) (hsound : t.Sound) (now : Time) (rule : Rule F)
    (fails stateFails : Bool) :
    (t.step (ofAction (.updateRule now rule fails stateFails))).Sees
      (EventStore.step s (.updateRule now rule fails stateFails)) := by
  rw [ofAction, EventStore.step]
  by_cases hinput : rule.id < 1 ∨ validateRule rule = false
  · rw [if_pos hinput]
    unfold Repository.updateRule
    rw [if_pos hinput]
    cases fails <;> exact h
  rw [if_neg hinput]
  cases fails with
  | true =>
    unfold Repository.updateRule
    rw [if_neg hinput, Bool.true_or, if_pos rfl]
    exact h
  | false =>
    rw [Bool.false_or, h.hasServer, step_updateRule hsound]
    cases (schema D F).has t.rows (.server rule.serverID) with
    | false =>
      unfold Repository.updateRule
      rw [if_neg hinput, Bool.not_false, if_pos rfl]
      exact h
    | true =>
      simp only [Bool.not_true, if_true]
      obtain ⟨hrules, hstates, hevents, hnext⟩ :=
        @updateRule_written F s now rule stateFails hinput
      have hsel : ∀ {B : Type} {sel : Row D F → Option B},
          (∀ row, sel (onRule (Repository.updatedRow now rule) row) = sel row) →
          (t.rows.map fun row => if decide (row.key = .rule rule.id) then
            onRule (Repository.updatedRow now rule) row else row).filterMap sel =
              t.rows.filterMap sel := fun h => filterMap_replace t.rows fun row _ => h row
      exact
        { rules := by
            refine hrules.trans ?_
            rw [h.rules]
            show (t.rows.filterMap Row.rule?).map _ = List.filterMap Row.rule? _
            rw [List.map_filterMap, List.filterMap_map]
            refine (List.filterMap_congr fun row _ => ?_).symm
            rw [Function.comp_apply]
            cases row with
            | rule row =>
              show _ = some (if row.id = rule.id then _ else _)
              split
              next hkey =>
                rw [if_pos (Key.rule.inj (of_decide_eq_true hkey))]
                rfl
              next hkey =>
                rw [if_neg fun hid => hkey (decide_eq_true (congrArg Key.rule hid))]
                rfl
            | _ => split <;> rfl
          states := fun id => (congrArg (AList.lookup id) hstates).trans
            ((h.states id).trans (congrArg (List.find? _) (hsel fun row => by
              cases row <;> rfl)).symm)
          events := hevents.trans (h.events.trans (hsel fun row => by cases row <;> rfl).symm)
          nextEventID := hnext.trans h.nextEventID
          servers := fun id => (h.servers id).trans
            (congrArg (fun rows => (List.find? _ rows).map ServerRow.name) (hsel fun row => by
              cases row <;> rfl)).symm
          attempts := h.attempts.trans (hsel fun row => by cases row <;> rfl).symm
          nextAttemptID := h.nextAttemptID }

/-- So has `SaveStateAndEvent`, with or without an event. -/
theorem Sees.saveStateAndEvent (h : t.Sees s) (hsound : t.Sound) (now : Time) (state : State F)
    (event : Option (Event F)) (fails : Bool) :
    (t.step (ofAction (.saveStateAndEvent now state event fails))).Sees
      (EventStore.step s (.saveStateAndEvent now state event fails)) := by
  rw [ofAction, EventStore.step]
  unfold Repository.saveStateAndEvent
  by_cases hstate : state.ruleID < 1 ∨ validStatus state.status = false
  · rw [if_pos hstate, if_pos (by tauto)]
    cases fails <;> exact h
  by_cases hevent : event.any (fun e => decide (e.ruleID < 1 ∨ e.serverID < 1) ||
      !validStatus e.status) = true
  · rw [if_neg hstate, if_pos hevent, if_pos (by tauto)]
    cases fails <;> exact h
  rw [if_neg hstate, if_neg hevent, if_neg (by tauto)]
  cases fails with
  | true => exact h
  | false =>
    rw [Bool.false_or, EventStore.references, h.hasRule]
    have hstep : ∀ statements : List (Statement D F),
        t.step ⟨statements, false⟩ = (t.transaction statements).getD t := fun _ => rfl
    rw [hstep]
    rcases exec_upsertState hsound { state with updatedAt := now } with
      ⟨hrule, t', hexec, hwritten⟩ | ⟨hrule, hexec⟩
    · have hview : t'.Sees { s with db := s.db.putState { state with updatedAt := now } } :=
        { rules := h.rules.trans hwritten.rules.symm
          states := fun id => by
            rw [hwritten.state, ← h.states]
            exact Database.state?_putState _ _
          events := h.events.trans hwritten.events.symm
          nextEventID := by rw [hwritten.sequence]; exact h.nextEventID
          servers := fun id => by rw [hwritten.servers]; exact h.servers id
          attempts := h.attempts.trans hwritten.attempts.symm
          nextAttemptID := by rw [hwritten.sequence]; exact h.nextAttemptID }
      have hrule' : (schema D F).has t.rows (.rule state.ruleID) = true := hrule
      rw [hrule', Bool.true_and, transaction, hexec, Option.bind_some]
      cases event with
      | none => exact hview
      | some e =>
        have hkeys : (s.hasRule e.ruleID && s.hasServer e.serverID) =
            ((schema D F).has t'.rows (.rule e.ruleID) &&
              (schema D F).has t'.rows (.server e.serverID)) := by
          rw [h.hasRule, h.hasServer, hwritten.keys _ (fun _ h => by cases h),
            hwritten.keys _ fun _ h => by cases h]
        rw [Option.all_some, hkeys, Option.toList_some, List.map_cons, List.map_nil, transaction,
          exec_insertEvent hwritten.sound]
        dsimp only
        cases (schema D F).has t'.rows (.rule e.ruleID) &&
            (schema D F).has t'.rows (.server e.serverID) with
        | false => exact h
        | true =>
          have happend := hview.appendEvent (Repository.insertedEvent s.db now e)
          exact happend
    · have hrule' : (schema D F).has t.rows (.rule state.ruleID) = false := hrule
      rw [hrule', Bool.false_and, transaction, hexec]
      exact h

/-- So has `RecordAttempt`. -/
theorem Sees.recordAttempt (h : t.Sees s) (hsound : t.Sound) (now : Time) (attempt : Attempt)
    (fails : Bool) :
    (t.step (ofAction (.recordAttempt now attempt fails))).Sees
      (EventStore.step s (.recordAttempt now attempt fails)) := by
  rw [ofAction, EventStore.step, EventStore.recordAttempt]
  by_cases hinput : attempt.attempt < 1 ∨ attempt.eventID.any (· < 1)
  · rw [if_pos hinput, if_pos hinput]
    cases fails <;> exact h
  · rw [if_neg hinput, if_neg hinput]
    have hkeys : attempt.eventID.all s.hasEvent =
        attempt.eventID.all fun id => (schema D F).has t.rows (.event id) :=
      congrArg (fun p => attempt.eventID.all p) (funext fun id => h.hasEvent id)
    cases fails with
    | true => exact h
    | false =>
      rw [Bool.false_or, hkeys]
      unfold step
      rw [if_neg Bool.false_ne_true]
      show (((t.exec _).bind some).getD t).Sees _
      rw [exec_insertAttempt hsound]
      cases hall : attempt.eventID.all fun id => (schema D F).has t.rows (.event id) with
      | false => exact h
      | true =>
        have happend := h.appendAttempt
          { attempt with sentAt := if attempt.sentAt = .zero then now else attempt.sentAt }
        exact happend

/-- **A call of the alert repository** does to the tables what a step does to the event history. -/
theorem Sees.step (h : t.Sees s) (hsound : t.Sound) (a : EventStore.Action F) :
    (t.step (ofAction a)).Sees (EventStore.step s a) := by
  cases a with
  | updateRule now rule fails stateFails => exact h.updateRule hsound now rule fails stateFails
  | saveStateAndEvent now state event fails => exact h.saveStateAndEvent hsound now state event fails
  | recordAttempt now attempt fails => exact h.recordAttempt hsound now attempt fails

/-- So has every run of the three. -/
theorem Sees.run (h : t.Sees s) (hsound : t.Sound) (as : List (EventStore.Action F)) :
    (run Tables.step t (as.map ofAction)).Sees (run EventStore.step s as) := by
  induction as generalizing t s with
  | nil => exact h
  | cons a as ih =>
    have hstep := step_invariant (fun _ _ hchange h => Sound.change h hchange) hsound (ofAction a)
    exact ih (h.step hsound a) hstep

end Selectors

/-! ## What the repository writes -/

/-- The checks that the repository makes before a statement. -/
def Checked : Statement D F → Prop
  | .insertRule rule _ | .updateRule rule _ => validateRule rule = true
  | .insertEvent event => validStatus event.status = true
  | _ => True

/-- The checks of a row that `ListEvents` scans. -/
def Scannable : Row D F → Prop
  | .rule row => validMetric row.metric = true
  | .event row => validStatus row.status = true
  | _ => True

section Checks

variable [DecidableEq D] {t t' : Tables D F}

/-- A valid rule names a metric of the schema. -/
theorem validMetric_of_validateRule {rule : Rule F} (h : validateRule rule = true) :
    validMetric rule.metric = true := by
  simp only [validateRule, Bool.and_eq_true] at h
  exact h.1.1.1.2

private theorem scannable_insert {row : Row D F} (hrun : t.insert row = some t')
    (h : ∀ row ∈ t.rows, Scannable row) (hrow : Scannable row) :
    ∀ row ∈ t'.rows, Scannable row := by
  obtain ⟨rows, hrows, rfl⟩ := Option.map_eq_some_iff.mp hrun
  obtain ⟨-, -, rfl⟩ := Schema.insert_eq_some.mp hrows
  exact List.forall_mem_append.mpr ⟨h, fun row' hrow' => List.mem_singleton.mp hrow' ▸ hrow⟩

private theorem scannable_insertSerial {table : Serial} {row : Int → Row D F}
    (hrun : t.insertSerial table row = some t') (h : ∀ row ∈ t.rows, Scannable row)
    (hrow : ∀ id, Scannable (row id)) : ∀ row ∈ t'.rows, Scannable row := by
  obtain ⟨rows, hrows, rfl⟩ := Option.map_eq_some_iff.mp hrun
  obtain ⟨-, -, rfl⟩ := Schema.insert_eq_some.mp hrows
  exact List.forall_mem_append.mpr ⟨h, fun row' hrow' => List.mem_singleton.mp hrow' ▸ hrow _⟩

private theorem scannable_replace {k : Key D} {f : Row D F → Row D F}
    (hrun : t.replace k f = some t') (h : ∀ row ∈ t.rows, Scannable row)
    (hf : ∀ row, Scannable row → Scannable (f row)) : ∀ row ∈ t'.rows, Scannable row := by
  obtain ⟨rows, hrows, rfl⟩ := Option.map_eq_some_iff.mp hrun
  obtain ⟨rfl, -⟩ := Schema.replace_eq_some.mp hrows
  intro row hrow
  obtain ⟨old, hold, rfl⟩ := List.mem_map.mp hrow
  split
  next => exact hf old (h old hold)
  next => exact h old hold

private theorem scannable_delete (p : Row D F → Bool) (h : ∀ row ∈ t.rows, Scannable row) :
    ∀ row ∈ (t.delete p).rows, Scannable row :=
  fun row hrow => h row ((Schema.delete_sublist _ _).subset hrow)

private theorem scannable_upsert {row : Row D F} {f : Row D F → Row D F}
    (hrun : t.upsert row f = some t') (h : ∀ row ∈ t.rows, Scannable row) (hrow : Scannable row)
    (hf : ∀ row, Scannable row → Scannable (f row)) : ∀ row ∈ t'.rows, Scannable row := by
  unfold upsert at hrun
  split at hrun
  next => exact scannable_replace hrun h hf
  next => exact scannable_insert hrun h hrow

/-- A checked statement leaves rows that scan. -/
theorem scannable_exec {statement : Statement D F} (hchecked : Checked statement)
    (h : ∀ row ∈ t.rows, Scannable row) (hrun : t.exec statement = some t') :
    ∀ row ∈ t'.rows, Scannable row := by
  have hserver : ∀ f (row : Row D F), Scannable row → Scannable (onServer f row) :=
    fun f row hrow => by cases row <;> exact hrow
  cases statement with
  | insertAdmin username passwordHash now => exact scannable_insert hrun h trivial
  | insertSession tokenHash adminID expiresAt now => exact scannable_insert hrun h trivial
  | deleteSession tokenHash =>
    cases hrun
    exact scannable_delete _ h
  | insertServer name tokenHash now =>
    simp only [exec] at hrun
    split at hrun
    next => cases hrun
    next => exact scannable_insertSerial hrun h fun _ => trivial
  | updateServer id name enabled now => exact scannable_replace hrun h (hserver _)
  | setToken id tokenHash now =>
    simp only [exec] at hrun
    split at hrun
    next => cases hrun
    next => exact scannable_replace hrun h (hserver _)
  | setAgentVersion id version => exact scannable_replace hrun h (hserver _)
  | deleteServer id =>
    cases hrun
    exact scannable_delete _ h
  | upsertMinute serverID minuteUnix payload now =>
    exact scannable_upsert hrun h trivial fun row hrow => by cases row <;> exact hrow
  | deleteMinutesBefore cutoffUnix =>
    cases hrun
    exact scannable_delete _ h
  | upsertWebhook config now =>
    exact scannable_upsert hrun h trivial fun row hrow => by cases row <;> exact hrow
  | insertRule rule now =>
    rw [exec] at hrun
    exact scannable_insertSerial hrun h fun _ => validMetric_of_validateRule hchecked
  | updateRule rule now =>
    refine scannable_replace hrun h fun row hrow => ?_
    cases row with
    | rule row => exact validMetric_of_validateRule hchecked
    | _ => exact hrow
  | deleteRule id =>
    cases hrun
    exact scannable_delete _ h
  | upsertState state =>
    exact scannable_upsert hrun h trivial fun row hrow => by cases row <;> exact hrow
  | insertEvent event =>
    rw [exec] at hrun
    exact scannable_insertSerial hrun h fun _ => hchecked
  | insertAttempt attempt =>
    rw [exec] at hrun
    exact scannable_insertSerial hrun h fun _ => trivial

/-- So does a transaction of checked statements. -/
theorem scannable_transaction {statements : List (Statement D F)}
    (hchecked : ∀ statement ∈ statements, Checked statement) (h : ∀ row ∈ t.rows, Scannable row)
    (hrun : t.transaction statements = some t') : ∀ row ∈ t'.rows, Scannable row := by
  induction statements generalizing t with
  | nil =>
    cases hrun
    exact h
  | cons statement rest ih =>
    obtain ⟨t'', hexec, hrest⟩ := Option.bind_eq_some_iff.mp hrun
    obtain ⟨hhead, htail⟩ := List.forall_mem_cons.mp hchecked
    exact ih htail (scannable_exec hhead h hexec) hrest

/-- So does every run of calls that check what they write. -/
theorem scannable_run {calls : List (Call D F)}
    (hchecked : ∀ call ∈ calls, ∀ statement ∈ call.statements, Checked statement)
    (h : ∀ row ∈ t.rows, Scannable row) : ∀ row ∈ (run step t calls).rows, Scannable row := by
  induction calls generalizing t with
  | nil => exact h
  | cons call calls ih =>
    obtain ⟨hhead, htail⟩ := List.forall_mem_cons.mp hchecked
    refine ih htail ?_
    unfold step
    split
    next => exact h
    next =>
      cases hrun : t.transaction call.statements with
      | none => exact h
      | some t' => exact scannable_transaction hhead h hrun

end Checks

/-! ## Every database has its event history -/

section View

variable {t : Tables D F}

/-- A key of the list finds its value in the map of the list. -/
theorem lookup_insertAll_find? {A V : Type} (key : A → Int) (value : A → V) {rows : List A}
    (hkeys : (rows.map key).Nodup) (k : Int) :
    AList.lookup k (Map.insertAll key value (∅ : Map Int V) rows) =
      (rows.find? fun a => key a == k).map value := by
  rcases Map.lookup_insertAll key value (∅ : Map Int V) rows k with
    ⟨a, ha, rfl, hlookup⟩ | ⟨hnone, hlookup⟩
  · rw [hlookup, Table.find?_of_mem key hkeys ha, Option.map_some]
  · rw [hlookup, AList.lookup_empty, List.find?_eq_none.mpr, Option.map_none]
    exact fun a ha heq => hnone a ha (beq_iff_eq.mp heq)

variable [DecidableEq D]

/-- The ids of a table with `AUTOINCREMENT` are in order. -/
theorem pairwise_ids (h : t.Sound) {B : Type} (k : Kind D F B) (table : Serial)
    (hkey : ∀ i, k.key i = Serial.key table i) :
    ((t.rows.filterMap k.select).map k.id).Pairwise (· < ·) := by
  rw [List.pairwise_map, List.pairwise_filterMap]
  refine h.order.imp fun hab b hb b' hb' => ?_
  exact hab table _ _ ((k.key_of_select hb).trans (hkey _)) ((k.key_of_select hb').trans (hkey _))

/-- The ids of a table lie between one and what its sequence has given. -/
theorem bound_ids (h : t.Sound) {B : Type} (k : Kind D F B) (table : Serial)
    (hkey : ∀ i, k.key i = Serial.key table i) :
    ∀ b ∈ t.rows.filterMap k.select, 1 ≤ k.id b ∧ k.id b < t.sequence table + 1 := by
  intro b hb
  have := h.given _ (k.mem.mp hb) table _ ((k.key_row b).trans (hkey _))
  omega

/-- The ids of a table are those of its primary key. -/
theorem nodup_ids (h : t.Sound) {B : Type} (k : Kind D F B) :
    ((t.rows.filterMap k.select).map k.id).Nodup := by
  rw [List.Nodup, List.pairwise_map, List.pairwise_filterMap]
  refine (List.pairwise_map.mp h.keys).imp fun {row row'} hne b hb b' hb' heq => hne ?_
  exact (k.key_of_select hb).trans (heq ▸ (k.key_of_select hb').symm)

private theorem lookup_states (h : t.Sound) (id : Int) :
    AList.lookup id (Map.insertAll State.ruleID (fun state => state) (∅ : Map Int (State F))
      (t.rows.filterMap Row.state?)) = t.state? id :=
  (lookup_insertAll_find? State.ruleID _ (nodup_ids h .state) id).trans Option.map_id'

/-- The event history of the tables. -/
def eventStore (t : Tables D F) (h : t.Sound) : EventStore F where
  db :=
    { rules := t.rules
      nextRuleID := t.sequence .rules + 1
      states := Map.insertAll State.ruleID (fun state => state) ∅ (t.rows.filterMap Row.state?)
      events := t.events
      nextEventID := t.sequence .events + 1
      rules_ids := pairwise_ids h .rule .rules fun _ => rfl
      rules_bound := bound_ids h .rule .rules fun _ => rfl
      nextRuleID_pos := by have := h.sequence .rules; omega
      states_keyed := fun id state hlookup =>
        Table.key_of_find? State.ruleID ((lookup_states h id).symm.trans hlookup)
      events_ids := pairwise_ids h .event .events fun _ => rfl
      events_bound := fun event hevent => (bound_ids h .event .events (fun _ => rfl) event hevent).2 }
  servers := Map.insertAll ServerRow.id ServerRow.name ∅ (t.rows.filterMap Row.server?)
  attempts := t.attempts
  nextAttemptID := t.sequence .attempts + 1

/-- The tables have the history that is read from them. -/
theorem sees_eventStore (h : t.Sound) : t.Sees (t.eventStore h) where
  rules := rfl
  states := lookup_states h
  events := rfl
  nextEventID := rfl
  servers := lookup_insertAll_find? ServerRow.id ServerRow.name (nodup_ids h .server)
  attempts := rfl
  nextAttemptID := rfl

/-- The listing of a database with checked rows leaves out no event. -/
theorem wellFormed_eventStore (h : t.Sound) (hscan : ∀ row ∈ t.rows, Scannable row) :
    (t.eventStore h).WellFormed where
  rules := fun rule hrule => hscan (.rule rule) (Kind.rule.mem.mp hrule)
  statuses := fun event hevent => hscan (.event event) (Kind.event.mem.mp hevent)
  ids := fun event hevent => (bound_ids h .event .events (fun _ => rfl) event hevent).1
  ruleKeys := fun event hevent => by
    rw [(sees_eventStore h).hasRule]
    exact Schema.has_iff.mpr
      (parent_of_ref h.intact (Kind.event.mem.mp hevent) (k := .rule event.ruleID) List.mem_cons_self)
  serverKeys := fun event hevent => by
    rw [(sees_eventStore h).hasServer]
    exact Schema.has_iff.mpr (parent_of_ref h.intact (Kind.event.mem.mp hevent)
      (k := .server event.serverID) (List.mem_cons_of_mem _ (List.mem_singleton_self _)))
  next := by
    show 1 ≤ t.sequence .events + 1
    have := h.sequence .events
    omega

/-- **The event history refined**: after any calls of the services there is a well-formed event
history that the tables have, and every run of the operations of `EventStore` from there
(`UpdateRule`, `SaveStateAndEvent` and `RecordAttempt`) has the same effect on both. Rules that are
created or deleted on the way are not among them; they are calls of the services, and so come before
the run. -/
theorem event_history_refined (calls : List (Call D F)) (as : List (EventStore.Action F))
    (hchecked : ∀ call ∈ calls, ∀ statement ∈ call.statements, Checked statement) :
    ∃ s : EventStore F, s.WellFormed ∧ (run step empty calls).Sees s ∧
      (run step empty (calls ++ as.map ofAction)).Sees (run EventStore.step s as) := by
  have hsound := sound_after (D := D) (F := F) calls
  refine ⟨eventStore _ hsound, wellFormed_eventStore hsound ?_, sees_eventStore hsound, ?_⟩
  · exact scannable_run hchecked fun _ h => absurd h List.not_mem_nil
  · rw [run_append]
    exact (sees_eventStore hsound).run hsound as

end View

/-- A server, a rule on it, and its first firing. -/
def firstFiring : List (Call Nat Nat) :=
  [⟨[.insertServer "web" 7 (.ofUnix 0)], false⟩,
    ⟨[.insertRule { id := 0, serverID := 1, metric := .cpuUsage, operator := .greaterThan
                    threshold := 90, durationSeconds := 0, repeatSeconds := 0, enabled := true
                    createdAt := .zero, updatedAt := .zero } (.ofUnix 1)], false⟩,
    ofAction (.saveStateAndEvent (.ofUnix 2) { State.fresh 1 with status := .firing }
      (some { id := 0, ruleID := 1, serverID := 1, status := .firing, currentValue := some 95
              threshold := some 90, startedAt := .ofUnix 2, endedAt := none, createdAt := .zero })
      false)]

/-- Its delivery, recorded. -/
theorem first_delivery_refined : (∀ call ∈ firstFiring, ∀ statement ∈ call.statements,
      Checked statement) ∧
    ∃ s : EventStore Nat, s.WellFormed ∧ (run step empty firstFiring).Sees s ∧
      (run step empty (firstFiring ++ [.recordAttempt (.ofUnix 3)
        { id := 0, eventID := some 1, isTest := false, attempt := 1, responseStatus := some 200
          errorText := "", sentAt := .zero } false].map ofAction)).Sees
        (run EventStore.step s [.recordAttempt (.ofUnix 3)
          { id := 0, eventID := some 1, isTest := false, attempt := 1, responseStatus := some 200
            errorText := "", sentAt := .zero } false]) := by
  have hchecked : ∀ call ∈ firstFiring, ∀ statement ∈ call.statements, Checked statement := by
    simp [firstFiring, ofAction, Checked, validateRule, validMetric, validOperator, validStatus,
      State.fresh]
  exact ⟨hchecked, event_history_refined firstFiring _ hchecked⟩

end Tables

end TinyProbe.Db
