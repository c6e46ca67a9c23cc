import TinyProbe.Lib.Map
import TinyProbe.Lib.Table
import TinyProbe.Alerting.Model

/-!
# The alert tables

The three tables the evaluator reads and writes, as `internal/alerting/repository.go` sees them:
`alert_rules` and `alert_events` as lists in id order, `alert_states` keyed by its rule. The keys'
constraints are fields of `Database`, so a table with a duplicate or out-of-order id cannot be
built; the four writes below it discharge them once. Instants are stored as text that reads back
to the same instant, so rows hold them as they are.

A call may fail for a reason outside the program; the `fails` argument says whether it does. A
failing statement leaves every table as it was, and `SaveStateAndEvent` writes both its rows in one
transaction. A violated foreign key is one such reason, so the keys need no model of their own.
-/

namespace TinyProbe.Alerting

variable {F : Type}

/-- The errors of the repository: `ErrInvalidInput`, `ErrNotFound`, a row that does not scan, and
whatever the database reports. -/
inductive RepositoryError where
  | invalidInput
  | notFound
  | badRow
  | failed
deriving DecidableEq, Repr

/-- The alert tables, the next ids of their `AUTOINCREMENT` keys, and what the keys promise. -/
structure Database (F : Type) where
  rules : List (Rule F)
  nextRuleID : Int
  states : Map Int (State F)
  events : List (Event F)
  nextEventID : Int
  rules_ids : (rules.map Rule.id).Pairwise (· < ·)
  rules_bound : ∀ rule ∈ rules, 1 ≤ rule.id ∧ rule.id < nextRuleID
  nextRuleID_pos : 1 ≤ nextRuleID
  states_keyed : ∀ id state, AList.lookup id states = some state → state.ruleID = id
  events_ids : (events.map Event.id).Pairwise (· < ·)
  events_bound : ∀ event ∈ events, event.id < nextEventID

namespace Database

/-- Freshly migrated tables. -/
def empty : Database F :=
  { rules := [], nextRuleID := 1, states := ∅, events := [], nextEventID := 1
    rules_ids := List.Pairwise.nil
    rules_bound := fun _ h => absurd h List.not_mem_nil
    nextRuleID_pos := Int.le_refl 1
    states_keyed := fun _ _ h => by simp only [AList.lookup_empty, reduceCtorEq] at h
    events_ids := List.Pairwise.nil
    events_bound := fun _ h => absurd h List.not_mem_nil }

/-- The row of a rule. -/
def rule? (db : Database F) (id : Int) : Option (Rule F) := db.rules.find? (·.id == id)

/-- The state row of a rule. -/
def state? (db : Database F) (ruleID : Int) : Option (State F) := AList.lookup ruleID db.states

/-- The event rows of a rule, in id order. -/
def eventsOf (db : Database F) (ruleID : Int) : List (Event F) :=
  db.events.filter (·.ruleID == ruleID)

/-- The persisted state of a rule; without a row it is the fresh one. -/
def stateOf (db : Database F) (ruleID : Int) : State F :=
  (db.state? ruleID).getD (State.fresh ruleID)

/-- The persisted status of a rule; without a state row it is normal. -/
def statusOf (db : Database F) (ruleID : Int) : Status := (db.stateOf ruleID).status

/-! ## The writes -/

/-- `INSERT INTO alert_rules`: the row gets the next id. -/
def insertRule (db : Database F) (rule : Rule F) : Database F :=
  { db with
    rules := db.rules ++ [{ rule with id := db.nextRuleID }]
    nextRuleID := db.nextRuleID + 1
    rules_ids := by
      simp only [List.map_append, List.map_cons, List.map_nil, List.pairwise_append,
        List.pairwise_singleton, List.mem_map, List.mem_singleton]
      refine ⟨db.rules_ids, trivial, ?_⟩
      rintro _ ⟨row, hrow, rfl⟩ _ rfl
      exact (db.rules_bound row hrow).2
    rules_bound := fun row hrow => by
      rcases List.mem_append.mp hrow with hrow | hrow
      · have := db.rules_bound row hrow
        omega
      · rw [List.mem_singleton.mp hrow]
        have := db.nextRuleID_pos
        exact ⟨this, by simp only; omega⟩
    nextRuleID_pos := by have := db.nextRuleID_pos; omega }

/-- `UPDATE alert_rules ... WHERE id=?`: the row with the id is replaced, under its id. -/
def replaceRule (db : Database F) (id : Int) (f : Rule F → Rule F) : Database F :=
  { db with
    rules := db.rules.map fun row => if row.id = id then { f row with id := row.id } else row
    rules_ids := by
      have hid : (db.rules.map fun row =>
          if row.id = id then { f row with id := row.id } else row).map Rule.id =
            db.rules.map Rule.id := by
        rw [List.map_map]
        exact List.map_congr_left fun row _ => by simp only [Function.comp_apply]; split <;> rfl
      rw [hid]
      exact db.rules_ids
    rules_bound := fun row hrow => by
      obtain ⟨old, hold, rfl⟩ := List.mem_map.mp hrow
      have := db.rules_bound old hold
      split <;> exact this }

/-- `INSERT INTO alert_states ... ON CONFLICT(rule_id) DO UPDATE`. -/
def putState (db : Database F) (state : State F) : Database F :=
  { db with
    states := db.states.insert state.ruleID state
    states_keyed := fun id row h => by
      rw [Map.lookup_insert] at h
      split at h
      next heq => cases h; exact heq.symm
      next => exact db.states_keyed id row h }

/-- `INSERT INTO alert_events`: the row gets the next id. -/
def insertEvent (db : Database F) (event : Event F) : Database F :=
  { db with
    events := db.events ++ [{ event with id := db.nextEventID }]
    nextEventID := db.nextEventID + 1
    events_ids := by
      simp only [List.map_append, List.map_cons, List.map_nil, List.pairwise_append,
        List.pairwise_singleton, List.mem_map, List.mem_singleton]
      refine ⟨db.events_ids, trivial, ?_⟩
      rintro _ ⟨row, hrow, rfl⟩ _ rfl
      exact db.events_bound row hrow
    events_bound := fun row hrow => by
      rcases List.mem_append.mp hrow with hrow | hrow
      · have := db.events_bound row hrow
        omega
      · rw [List.mem_singleton.mp hrow]
        simp only
        omega }

section Laws

variable {db : Database F}

@[simp] theorem state?_empty (id : Int) : (empty : Database F).state? id = none :=
  AList.lookup_empty id

@[simp] theorem stateOf_empty (id : Int) :
    (empty : Database F).stateOf id = State.fresh id := by
  rw [stateOf, state?_empty, Option.getD_none]

@[simp] theorem rule?_empty (id : Int) : (empty : Database F).rule? id = none := rfl

@[simp] theorem eventsOf_empty (id : Int) : (empty : Database F).eventsOf id = [] := rfl

/-- A row is found under its own id. -/
theorem rule?_id {id : Int} {rule : Rule F} (h : db.rule? id = some rule) : rule.id = id :=
  Table.key_of_find? Rule.id h

/-- What is found is a row of the table. -/
theorem rule?_mem {id : Int} {rule : Rule F} (h : db.rule? id = some rule) : rule ∈ db.rules :=
  List.mem_of_find?_eq_some h

/-- Ids are unique, so every row is found under its id. -/
theorem rule?_of_mem {rule : Rule F} (h : rule ∈ db.rules) : db.rule? rule.id = some rule :=
  Table.find?_of_mem Rule.id (db.rules_ids.imp Int.ne_of_lt) h

@[simp] theorem state?_insertRule (rule : Rule F) (id : Int) :
    (db.insertRule rule).state? id = db.state? id := rfl

@[simp] theorem eventsOf_insertRule (rule : Rule F) (id : Int) :
    (db.insertRule rule).eventsOf id = db.eventsOf id := rfl

@[simp] theorem state?_replaceRule (id id' : Int) (f : Rule F → Rule F) :
    (db.replaceRule id' f).state? id = db.state? id := rfl

@[simp] theorem eventsOf_replaceRule (id id' : Int) (f : Rule F → Rule F) :
    (db.replaceRule id' f).eventsOf id = db.eventsOf id := rfl

@[simp] theorem rule?_putState (state : State F) (id : Int) :
    (db.putState state).rule? id = db.rule? id := rfl

@[simp] theorem eventsOf_putState (state : State F) (id : Int) :
    (db.putState state).eventsOf id = db.eventsOf id := rfl

@[simp] theorem rule?_insertEvent (event : Event F) (id : Int) :
    (db.insertEvent event).rule? id = db.rule? id := rfl

@[simp] theorem state?_insertEvent (event : Event F) (id : Int) :
    (db.insertEvent event).state? id = db.state? id := rfl

/-- The upsert writes one row of `alert_states`. -/
theorem state?_putState (state : State F) (id : Int) :
    (db.putState state).state? id = if id = state.ruleID then some state else db.state? id :=
  Map.lookup_insert _ _ _ _

/-- The persisted state depends on the rule's row alone. -/
theorem stateOf_congr {db' : Database F} {id : Int} (h : db'.state? id = db.state? id) :
    db'.stateOf id = db.stateOf id := by
  rw [stateOf, h, stateOf]

/-- The persisted state of a rule is its own. -/
@[simp] theorem stateOf_ruleID (id : Int) : (db.stateOf id).ruleID = id := by
  unfold stateOf
  cases h : db.state? id with
  | none => rfl
  | some state => exact db.states_keyed id state h

private theorem stateOf_putState (state : State F) (id : Int) :
    (db.putState state).stateOf id = if id = state.ruleID then state else db.stateOf id := by
  simp only [stateOf, state?_putState]
  split
  next => rfl
  next => rfl

/-- A new rule does not change the row of another one. -/
theorem rule?_insertRule (rule : Rule F) (id : Int) :
    (db.insertRule rule).rule? id =
      if id = db.nextRuleID then some { rule with id := db.nextRuleID } else db.rule? id := by
  have hfresh : ∀ row ∈ db.rules, row.id ≠ db.nextRuleID := fun row hrow =>
    Int.ne_of_lt (db.rules_bound row hrow).2
  refine (Table.find?_append Rule.id { rule with id := db.nextRuleID } hfresh).trans ?_
  exact if_congr eq_comm rfl rfl

/-- `UPDATE` changes the row it names, and no other. -/
theorem rule?_replaceRule (id id' : Int) (f : Rule F → Rule F) :
    (db.replaceRule id' f).rule? id =
      (db.rule? id).map fun row => if row.id = id' then { f row with id := row.id } else row := by
  refine Table.find?_map Rule.id fun row => ?_
  split <;> rfl

/-- What is found depends on the table of rules alone. -/
theorem rule?_congr {db' : Database F} (h : db'.rules = db.rules) (id : Int) :
    db'.rule? id = db.rule? id := by
  rw [rule?, h, rule?]

/-- The row of a rule that exists is not touched by a new one. -/
theorem rule?_insertRule_of_some {id : Int} {row : Rule F} (h : db.rule? id = some row)
    (rule : Rule F) : (db.insertRule rule).rule? id = some row := by
  have := db.rules_bound row (rule?_mem h)
  rw [rule?_insertRule, if_neg, h]
  rw [← rule?_id h]
  omega

/-- An event goes to the end of its rule's events. -/
private theorem eventsOf_insertEvent (event : Event F) (id : Int) :
    (db.insertEvent event).eventsOf id =
      if event.ruleID = id then db.eventsOf id ++ [{ event with id := db.nextEventID }]
      else db.eventsOf id := by
  unfold eventsOf insertEvent
  simp only [List.filter_append, List.filter_cons, List.filter_nil, beq_iff_eq]
  split
  next => rfl
  next => rw [List.append_nil]

end Laws

end Database

/-- `validateRule`. -/
def validateRule (rule : Rule F) : Bool :=
  decide (1 ≤ rule.serverID) && validMetric rule.metric && validOperator rule.operator &&
    decide (0 ≤ rule.durationSeconds) && decide (0 ≤ rule.repeatSeconds)

/-- The enum check of `scanRule`. -/
def scannable (rule : Rule F) : Bool := validMetric rule.metric && validOperator rule.operator

namespace Repository

/-- `CreateRule`. -/
def createRule (db : Database F) (now : Time) (rule : Rule F) (fails : Bool) :
    Except RepositoryError (Rule F) × Database F :=
  if validateRule rule = false then (.error .invalidInput, db)
  else if fails then (.error .failed, db)
  else
    let row := { rule with createdAt := now, updatedAt := now }
    (.ok { row with id := db.nextRuleID }, db.insertRule row)

/-- What `UPDATE alert_rules` writes over a row. -/
def updatedRow (now : Time) (rule row : Rule F) : Rule F :=
  { rule with id := row.id, createdAt := row.createdAt, updatedAt := now }

/-- `GetState`. -/
def getState (db : Database F) (ruleID : Int) (fails : Bool) :
    Except RepositoryError (State F) :=
  if ruleID < 1 then .error .invalidInput
  else if fails then .error .failed
  else
    match db.state? ruleID with
    | none => .error .notFound
    | some state => if validStatus state.status then .ok state else .error .badRow

/-- `UpdateRule`. The row is written before the state is read for the answer, so a failing read
returns an error for an update that took place. -/
def updateRule (db : Database F) (now : Time) (rule : Rule F) (fails stateFails : Bool) :
    Except RepositoryError (Rule F) × Database F :=
  if rule.id < 1 ∨ validateRule rule = false then (.error .invalidInput, db)
  else if fails then (.error .failed, db)
  else
    match db.rule? rule.id with
    | none => (.error .notFound, db)
    | some row =>
      let db' := db.replaceRule rule.id (updatedRow now rule)
      match getState db' rule.id stateFails with
      | .ok _ | .error .notFound => (.ok (updatedRow now rule row), db')
      | .error e => (.error e, db')

/-- `CreateRule` inserts its row: its check passes, and the statement does not fail. -/
def creates (rule : Rule F) (fails : Bool) : Bool := validateRule rule && !fails

/-- `UpdateRule` reaches its `UPDATE`, and there is a row. -/
def updates (db : Database F) (rule : Rule F) (fails : Bool) : Bool :=
  decide (1 ≤ rule.id) && validateRule rule && !fails && (db.rule? rule.id).isSome

/-- `ListEnabledRulesForServer`. -/
def listEnabledRulesForServer (db : Database F) (serverID : Int) (fails : Bool) :
    Except RepositoryError (List (Rule F)) :=
  if serverID < 1 then .error .invalidInput
  else if fails then .error .failed
  else
    let rows := db.rules.filter fun rule => rule.serverID == serverID && rule.enabled
    if rows.all scannable then .ok rows else .error .badRow

/-- The event row `SaveStateAndEvent` inserts. -/
def insertedEvent (db : Database F) (now : Time) (event : Event F) : Event F :=
  { event with
    id := db.nextEventID
    createdAt := if event.createdAt = .zero then now else event.createdAt }

/-- The transaction of `SaveStateAndEvent`: the state row is upserted and the event, when there is
one, is appended. -/
def saved (db : Database F) (now : Time) (state : State F) (event : Option (Event F)) :
    Database F :=
  (event.elim id fun e db' => db'.insertEvent (insertedEvent db now e))
    (db.putState { state with updatedAt := now })

/-- `SaveStateAndEvent`: the stored event, and the tables. -/
def saveStateAndEvent (db : Database F) (now : Time) (state : State F) (event : Option (Event F))
    (fails : Bool) : Except RepositoryError (Option (Event F) × Database F) :=
  if state.ruleID < 1 ∨ validStatus state.status = false then .error .invalidInput
  else if event.any (fun e => decide (e.ruleID < 1 ∨ e.serverID < 1) || !validStatus e.status) then
    .error .invalidInput
  else if fails then .error .failed
  else .ok (event.map (insertedEvent db now), saved db now state event)

/-! ## What each operation leaves in the tables -/

section Laws

variable {db db' : Database F} {now : Time}

/-- `CreateRule` appends a valid row under a fresh id, or does nothing. -/
theorem createRule_db (rule : Rule F) (fails : Bool) :
    (createRule db now rule fails).2 = db ∨
      (creates rule fails = true ∧ (createRule db now rule fails).2 =
        db.insertRule { rule with createdAt := now, updatedAt := now }) := by
  unfold createRule creates
  split
  next => exact Or.inl rfl
  next hv =>
    split
    next => exact Or.inl rfl
    next hfails =>
      rw [Bool.not_eq_false] at hv
      exact Or.inr ⟨by rw [hv, Bool.eq_false_of_not_eq_true hfails]; rfl, rfl⟩

/-- What `CreateRule` inserts has passed `validateRule`. -/
theorem validateRule_of_creates {rule : Rule F} {fails : Bool} (h : creates rule fails = true) :
    validateRule rule = true := (Bool.and_eq_true_iff.mp h).1

/-- What `UpdateRule` does to the tables. -/
theorem updateRule_updates (rule : Rule F) (fails stateFails : Bool) :
    (updates db rule fails = true → ∃ row, db.rule? rule.id = some row ∧
      (updateRule db now rule fails stateFails).2 =
        db.replaceRule rule.id (updatedRow now rule)) ∧
    (updates db rule fails = false → ∃ err,
      updateRule db now rule fails stateFails = (.error err, db)) := by
  unfold updates updateRule
  split
  next hbad =>
    refine ⟨fun h => ?_, fun _ => ⟨_, rfl⟩⟩
    simp only [Bool.and_eq_true, decide_eq_true_eq] at h
    rcases hbad with hid | hvalid
    · omega
    · rw [h.1.1.2] at hvalid
      cases hvalid
  next hok =>
    have hid : decide (1 ≤ rule.id) = true := decide_eq_true (by omega)
    have hvalid : validateRule rule = true := by
      cases h : validateRule rule with
      | true => rfl
      | false => exact absurd (Or.inr h) hok
    rw [hid, hvalid]
    split
    next hfails =>
      rw [hfails]
      exact ⟨(fun h => by cases h), fun _ => ⟨_, rfl⟩⟩
    next hfails =>
      rw [Bool.eq_false_of_not_eq_true hfails]
      split
      next hrow =>
        rw [hrow]
        exact ⟨(fun h => by cases h), fun _ => ⟨_, rfl⟩⟩
      next row hrow =>
        rw [hrow]
        refine ⟨fun _ => ⟨row, rfl, ?_⟩, (fun h => by cases h)⟩
        dsimp only
        split
        next => rfl
        next => rfl
        next => rfl

/-- `UpdateRule` replaces the row of a rule that exists by a valid one, or does nothing. -/
theorem updateRule_db (rule : Rule F) (fails stateFails : Bool) :
    (updateRule db now rule fails stateFails).2 = db ∨
      (updates db rule fails = true ∧ (updateRule db now rule fails stateFails).2 =
          db.replaceRule rule.id (updatedRow now rule)) := by
  obtain ⟨hyes, hno⟩ := @updateRule_updates F db now rule fails stateFails
  cases hupdates : updates db rule fails with
  | true =>
    obtain ⟨_, _, hdb⟩ := hyes hupdates
    exact Or.inr ⟨rfl, hdb⟩
  | false =>
    obtain ⟨_, herr⟩ := hno hupdates
    exact Or.inl (by rw [herr])

/-- What `UpdateRule` writes has passed `validateRule`. -/
theorem validateRule_of_updates {rule : Rule F} {fails : Bool}
    (h : updates db rule fails = true) : validateRule rule = true := by
  simp only [updates, Bool.and_eq_true] at h
  exact h.1.1.2

/-- The listed rules are the enabled rows of the server. -/
theorem mem_listed {serverID : Int} {fails : Bool} {rows : List (Rule F)}
    (h : listEnabledRulesForServer db serverID fails = .ok rows) :
    1 ≤ serverID ∧ fails = false ∧
      rows = db.rules.filter fun rule => rule.serverID == serverID && rule.enabled := by
  unfold listEnabledRulesForServer at h
  split at h
  next => cases h
  next hid =>
    split at h
    next => cases h
    next hf =>
      simp only at h
      split at h
      next => cases h; exact ⟨by omega, by simpa using hf, rfl⟩
      next => cases h

/-- A state that was read is the rule's row. -/
theorem getState_ok {ruleID : Int} {fails : Bool} {state : State F}
    (h : getState db ruleID fails = .ok state) : db.state? ruleID = some state := by
  unfold getState at h
  split at h
  next => cases h
  next =>
    split at h
    next => cases h
    next =>
      split at h
      next => cases h
      next row hrow =>
        split at h
        next => cases h; exact hrow
        next => cases h

/-- `ErrNotFound` says that the rule has no state row. -/
theorem getState_notFound {ruleID : Int} {fails : Bool}
    (h : getState db ruleID fails = .error .notFound) : db.state? ruleID = none := by
  unfold getState at h
  split at h
  next => cases h
  next =>
    split at h
    next => cases h
    next =>
      split at h
      next hrow => exact hrow
      next => split at h <;> cases h

/-- Whether a save succeeds does not depend on the tables. -/
theorem saveStateAndEvent_cases (now : Time) (state : State F) (event : Option (Event F))
    (fails : Bool) :
    (∃ e, ∀ db, saveStateAndEvent db now state event fails = .error e) ∨
      ∀ db, saveStateAndEvent db now state event fails =
        .ok (event.map (insertedEvent db now), saved db now state event) := by
  unfold saveStateAndEvent
  split
  next => exact Or.inl ⟨_, fun _ => rfl⟩
  next =>
    split
    next => exact Or.inl ⟨_, fun _ => rfl⟩
    next =>
      split
      next => exact Or.inl ⟨_, fun _ => rfl⟩
      next => exact Or.inr fun _ => rfl

/-- A save of a valid state and a valid event that does not fail for a reason of its own
succeeds. -/
theorem saveStateAndEvent_ok {state : State F} {event : Option (Event F)}
    (hid : 1 ≤ state.ruleID) (hst : validStatus state.status = true)
    (hev : ∀ e, event = some e → 1 ≤ e.ruleID ∧ 1 ≤ e.serverID ∧ validStatus e.status = true) :
    saveStateAndEvent db now state event false =
      .ok (event.map (insertedEvent db now), saved db now state event) := by
  have hany : ¬ event.any
      (fun e => decide (e.ruleID < 1 ∨ e.serverID < 1) || !validStatus e.status) = true := by
    cases event with
    | none => exact Bool.false_ne_true
    | some e =>
      obtain ⟨h1, h2, h3⟩ := hev e rfl
      simp only [Option.any_some, Bool.or_eq_true, decide_eq_true_eq, h3, Bool.not_true,
        Bool.false_eq_true, or_false]
      omega
  have hstate : ¬ (state.ruleID < 1 ∨ validStatus state.status = false) := by
    rw [hst]
    simp only [Bool.true_eq_false, or_false]
    omega
  rw [saveStateAndEvent, if_neg hstate, if_neg hany, if_neg Bool.false_ne_true]

/-- `SaveStateAndEvent` leaves the rules. -/
@[simp] theorem rules_saved (state : State F) (event : Option (Event F)) :
    (saved db now state event).rules = db.rules := by
  cases event <;> rfl

/-- `SaveStateAndEvent` writes the state of its rule, at the time of the call. -/
theorem state?_saved (state : State F) (event : Option (Event F)) (id : Int) :
    (saved db now state event).state? id =
      if id = state.ruleID then some { state with updatedAt := now } else db.state? id := by
  cases event <;> exact Database.state?_putState _ _

/-- The persisted state changes for this rule only. -/
theorem stateOf_saved (state : State F) (event : Option (Event F)) (id : Int) :
    (saved db now state event).stateOf id =
      if id = state.ruleID then { state with updatedAt := now } else db.stateOf id := by
  cases event <;> exact Database.stateOf_putState _ _

/-- The event goes to the end of its own rule's log. -/
theorem eventsOf_saved (state : State F) {event : Option (Event F)} {ruleID : Int}
    (hrule : ∀ e, event = some e → e.ruleID = ruleID) (id : Int) :
    (saved db now state event).eventsOf id =
      db.eventsOf id ++ if ruleID = id then (event.map (insertedEvent db now)).toList else [] := by
  cases event with
  | none =>
    have hnil : (if ruleID = id then (Option.map (insertedEvent db now) none).toList else []) = [] :=
      ite_self _
    rw [hnil, List.append_nil]
    rfl
  | some e =>
    apply (Database.eventsOf_insertEvent _ id).trans
    rw [← hrule e rfl]
    change (if e.ruleID = id then _ else _) = _
    split
    next => rfl
    next => exact (List.append_nil _).symm

/-! ## Every row that is written reads back -/

/-- The rows pass the checks of `scanRule` and `scanState`, and those `CreateRule` makes. -/
structure Scans (db : Database F) : Prop where
  rules : ∀ rule ∈ db.rules, validateRule rule = true
  states : ∀ id state, db.state? id = some state → validStatus state.status = true

/-- Empty tables scan. -/
theorem scans_empty : Scans (Database.empty : Database F) where
  rules := fun _ h => absurd h List.not_mem_nil
  states := fun _ _ h => by rw [Database.state?_empty] at h; cases h

/-- `CreateRule` checks the enums, so its row scans. -/
theorem Scans.createRule (h : Scans db) (rule : Rule F) (fails : Bool) :
    Scans (Repository.createRule db now rule fails).2 := by
  rcases @createRule_db F db now rule fails with heq | ⟨hv, heq⟩
  · rw [heq]
    exact h
  · rw [heq]
    refine ⟨fun row hrow => ?_, h.states⟩
    rcases List.mem_append.mp hrow with hrow | hrow
    · exact h.rules row hrow
    · rw [List.mem_singleton.mp hrow]
      exact validateRule_of_creates hv

/-- `UpdateRule` checks the enums, so its row scans. -/
theorem Scans.updateRule (h : Scans db) (rule : Rule F) (fails stateFails : Bool) :
    Scans (Repository.updateRule db now rule fails stateFails).2 := by
  rcases @updateRule_db F db now rule fails stateFails with heq | ⟨hv, heq⟩
  · rw [heq]
    exact h
  · rw [heq]
    refine ⟨fun row hrow => ?_, h.states⟩
    obtain ⟨old, hold, rfl⟩ := List.mem_map.mp hrow
    split
    next => exact (validateRule_of_updates hv :)
    next => exact h.rules old hold

/-- `SaveStateAndEvent` checks the status, so its rows scan. -/
theorem Scans.saved (h : Scans db) {state : State F} (hv : validStatus state.status = true)
    (event : Option (Event F)) : Scans (saved db now state event) where
  rules := by rw [rules_saved]; exact h.rules
  states := fun id row hrow => by
    rw [state?_saved] at hrow
    split at hrow
    next => cases hrow; exact hv
    next => exact h.states id row hrow

/-- Without a failure of its own the listing succeeds. -/
theorem Scans.list (h : Scans db) {serverID : Int} (hid : 1 ≤ serverID) :
    listEnabledRulesForServer db serverID false =
      .ok (db.rules.filter fun rule => rule.serverID == serverID && rule.enabled) := by
  have hall : (db.rules.filter fun rule => rule.serverID == serverID && rule.enabled).all
      scannable = true := List.all_eq_true.mpr fun rule hrule => by
    have hv := h.rules rule (List.mem_of_mem_filter hrule)
    simp only [validateRule, Bool.and_eq_true, decide_eq_true_eq] at hv
    simp only [scannable, hv.1.1.1.2, hv.1.1.2, Bool.and_self]
  rw [listEnabledRulesForServer, if_neg (by omega), if_neg Bool.false_ne_true]
  simp only [hall, if_true]

/-- Without a failure of its own a state is read, or there is none. -/
theorem Scans.get (h : Scans db) {ruleID : Int} (hid : 1 ≤ ruleID) :
    getState db ruleID false = (db.state? ruleID).elim (.error .notFound) .ok := by
  rw [getState, if_neg (by omega), if_neg Bool.false_ne_true]
  cases hst : db.state? ruleID with
  | none => rfl
  | some state => simp only [h.states ruleID state hst, if_true, Option.elim_some]

end Laws

end Repository

end TinyProbe.Alerting
