import TinyProbe.Base.Rfc3339Parse
import TinyProbe.Alerting.Events

/-!
# The alert tables in text columns

The columns of `alert_rules`, `alert_states` and `alert_events` hold instants as text: `formatTime`
writes them, and `scanRule`, `scanState` and `scanEvent` read them back. `Alerting.Database` leaves
this out and keeps instants as they are. Here the calls of the repository work on the columns, and
`Holds` says that the columns are those of a `Database`.

Each of `CreateRule`, `UpdateRule`, `GetState`, `ListEnabledRulesForServer`, `ListEvents` and
`SaveStateAndEvent` answers from the columns what it answers from the `Database`, and leaves the
columns of the `Database` it leaves (`answers_eq`), over every run of calls whose instants lie in
the years 0 to 9999. `ListEvents` is taken without the attempts it joins to its events, whose
`sent_at` is the one other text. Text that is not RFC 3339 goes to a parser that is a parameter; no
such text is written.
-/

namespace TinyProbe.Alerting

variable {F : Type}

/-- `formatTime`. -/
def formatTime (t : Time) : List Char := t.format

/-- `optionalTime`. -/
def optionalTime (t : Option Time) : Option (List Char) := t.map formatTime

/-- `boolInt`. -/
def boolInt (value : Bool) : Int := if value then 1 else 0

/-- A row of `alert_rules`. -/
structure RuleColumns (F : Type) where
  id : Int
  serverID : Int
  metric : Metric
  operator : Operator
  threshold : F
  durationSeconds : Int
  repeatSeconds : Int
  enabled : Int
  createdAt : List Char
  updatedAt : List Char

/-- A row of `alert_states`. -/
structure StateColumns (F : Type) where
  ruleID : Int
  status : Status
  pendingSince : Option (List Char)
  firingSince : Option (List Char)
  lastNotifiedAt : Option (List Char)
  lastValue : Option F
  updatedAt : List Char

/-- A row of `alert_events`. -/
structure EventColumns (F : Type) where
  id : Int
  ruleID : Int
  serverID : Int
  status : Status
  currentValue : Option F
  threshold : Option F
  startedAt : List Char
  endedAt : Option (List Char)
  createdAt : List Char

/-- The columns of a rule. -/
def Rule.columns (rule : Rule F) : RuleColumns F :=
  { id := rule.id, serverID := rule.serverID, metric := rule.metric, operator := rule.operator
    threshold := rule.threshold, durationSeconds := rule.durationSeconds
    repeatSeconds := rule.repeatSeconds, enabled := boolInt rule.enabled
    createdAt := formatTime rule.createdAt, updatedAt := formatTime rule.updatedAt }

/-- The columns of a state. -/
def State.columns (state : State F) : StateColumns F :=
  { ruleID := state.ruleID, status := state.status, pendingSince := optionalTime state.pendingSince
    firingSince := optionalTime state.firingSince
    lastNotifiedAt := optionalTime state.lastNotifiedAt, lastValue := state.lastValue
    updatedAt := formatTime state.updatedAt }

/-- The columns of an event. -/
def Event.columns (event : Event F) : EventColumns F :=
  { id := event.id, ruleID := event.ruleID, serverID := event.serverID, status := event.status
    currentValue := event.currentValue, threshold := event.threshold
    startedAt := formatTime event.startedAt, endedAt := optionalTime event.endedAt
    createdAt := formatTime event.createdAt }

section Scan

variable (general : List Char → Option Time)

/-- `parseTime`. -/
def parseTime (value : List Char) : Except RepositoryError Time :=
  match Time.parse general value with
  | some t => .ok t
  | none => .error .badRow

/-- `parseOptionalTime`. -/
def parseOptionalTime : Option (List Char) → Except RepositoryError (Option Time)
  | none => .ok none
  | some value => (parseTime general value).map some

/-- `scanRule`. -/
def scanRule (row : RuleColumns F) : Except RepositoryError (Rule F) :=
  if !validMetric row.metric || !validOperator row.operator then .error .badRow
  else do
    let createdAt ← parseTime general row.createdAt
    let updatedAt ← parseTime general row.updatedAt
    return { id := row.id, serverID := row.serverID, metric := row.metric, operator := row.operator
             threshold := row.threshold, durationSeconds := row.durationSeconds
             repeatSeconds := row.repeatSeconds, enabled := row.enabled != 0, createdAt, updatedAt }

/-- `scanState`. -/
def scanState (row : StateColumns F) : Except RepositoryError (State F) :=
  if !validStatus row.status then .error .badRow
  else do
    let pendingSince ← parseOptionalTime general row.pendingSince
    let firingSince ← parseOptionalTime general row.firingSince
    let lastNotifiedAt ← parseOptionalTime general row.lastNotifiedAt
    let updatedAt ← parseTime general row.updatedAt
    return { ruleID := row.ruleID, status := row.status, pendingSince, firingSince, lastNotifiedAt
             lastValue := row.lastValue, updatedAt }

/-- The columns that `ListEvents` selects of an event: its own, the name of the server and the metric
of the rule. -/
structure EventSelection (F : Type) where
  event : EventColumns F
  serverName : String
  metric : Metric

/-- `scanEvent`. -/
def scanEvent (row : EventSelection F) : Except RepositoryError (ListedEvent F) :=
  if !validMetric row.metric || !validStatus row.event.status then .error .badRow
  else do
    let startedAt ← parseTime general row.event.startedAt
    let endedAt ← parseOptionalTime general row.event.endedAt
    let createdAt ← parseTime general row.event.createdAt
    return { event := { id := row.event.id, ruleID := row.event.ruleID
                        serverID := row.event.serverID, status := row.event.status
                        currentValue := row.event.currentValue, threshold := row.event.threshold
                        startedAt, endedAt, createdAt }
             serverName := row.serverName, metric := row.metric, attempts := [] }

end Scan

/-- The alert tables, column by column. -/
structure Columns (F : Type) where
  rules : List (RuleColumns F)
  nextRuleID : Int
  states : Map Int (StateColumns F)
  events : List (EventColumns F)
  nextEventID : Int

namespace Columns

def empty : Columns F :=
  { rules := [], nextRuleID := 1, states := ∅, events := [], nextEventID := 1 }

section Calls

variable (general : List Char → Option Time)

/-- `CreateRule`: the answer is the row as it was inserted. -/
def createRule (c : Columns F) (now : Time) (rule : Rule F) (fails : Bool) :
    Except RepositoryError (Rule F) × Columns F :=
  if validateRule rule = false then (.error .invalidInput, c)
  else if fails then (.error .failed, c)
  else
    let row :=
      { rule.columns with
        id := c.nextRuleID, createdAt := formatTime now, updatedAt := formatTime now }
    (scanRule general row, { c with rules := c.rules ++ [row], nextRuleID := c.nextRuleID + 1 })

/-- `GetState`. -/
def getState (c : Columns F) (ruleID : Int) (fails : Bool) : Except RepositoryError (State F) :=
  if ruleID < 1 then .error .invalidInput
  else if fails then .error .failed
  else
    match AList.lookup ruleID c.states with
    | none => .error .notFound
    | some row => scanState general row

/-- `UpdateRule`. -/
def updateRule (c : Columns F) (now : Time) (rule : Rule F) (fails stateFails : Bool) :
    Except RepositoryError (Rule F) × Columns F :=
  if rule.id < 1 ∨ validateRule rule = false then (.error .invalidInput, c)
  else if fails then (.error .failed, c)
  else
    let write (row : RuleColumns F) : RuleColumns F :=
      { rule.columns with
        id := row.id, createdAt := row.createdAt, updatedAt := formatTime now }
    match c.rules.find? (·.id == rule.id) with
    | none => (.error .notFound, c)
    | some row =>
      let c' :=
        { c with rules := c.rules.map fun row => if row.id = rule.id then write row else row }
      match scanRule general (write row) with
      | .error e => (.error e, c')
      | .ok updated =>
        match getState general c' updated.id stateFails with
        | .ok _ | .error .notFound => (.ok updated, c')
        | .error e => (.error e, c')

/-- `ListEnabledRulesForServer`. -/
def listEnabledRulesForServer (c : Columns F) (serverID : Int) (fails : Bool) :
    Except RepositoryError (List (Rule F)) :=
  if serverID < 1 then .error .invalidInput
  else if fails then .error .failed
  else (c.rules.filter fun row => row.serverID == serverID && row.enabled == 1).mapM
    (scanRule general)

/-- An event with the columns of the two joins. -/
def joined (c : Columns F) (servers : Map Int String) (event : EventColumns F) :
    Option (EventSelection F) := do
  let serverName ← AList.lookup event.serverID servers
  let rule ← c.rules.find? (·.id == event.ruleID)
  return { event, serverName, metric := rule.metric }

/-- The rows of `ListEvents`, before the attempts are added to them. -/
def listEvents (c : Columns F) (servers : Map Int String) (beforeID limit : Int) (fails : Bool) :
    Except RepositoryError (List (ListedEvent F)) :=
  if beforeID < 0 ∨ limit < 1 ∨ 100 < limit then .error .invalidInput
  else if fails then .error .failed
  else ((Keyset.backwards (·.event.id) (EventStore.admits beforeID)
    (c.events.filterMap (c.joined servers))).take limit.toNat).mapM (scanEvent general)

end Calls

/-- `SaveStateAndEvent`: the stored event is the one that was given, with its id. -/
def saveStateAndEvent (c : Columns F) (now : Time) (state : State F) (event : Option (Event F))
    (fails : Bool) : Except RepositoryError (Option (Event F)) × Columns F :=
  if state.ruleID < 1 ∨ validStatus state.status = false then (.error .invalidInput, c)
  else if event.any (fun e => decide (e.ruleID < 1 ∨ e.serverID < 1) || !validStatus e.status) then
    (.error .invalidInput, c)
  else if fails then (.error .failed, c)
  else
    let c := { c with
      states := c.states.insert state.ruleID { state with updatedAt := now }.columns }
    match event with
    | none => (.ok none, c)
    | some e =>
      let stored :=
        { e with
          id := c.nextEventID
          createdAt := if e.createdAt = .zero then now else e.createdAt }
      (.ok (some stored),
        { c with events := c.events ++ [stored.columns], nextEventID := c.nextEventID + 1 })

end Columns

/-! ## Calls on both -/

/-- A call of one of the six methods that read or write the three tables, `ListEvents` without the
attempts it joins. -/
inductive RepositoryCall (F : Type) where
  | createRule (now : Time) (rule : Rule F) (fails : Bool)
  | updateRule (now : Time) (rule : Rule F) (fails stateFails : Bool)
  | getState (ruleID : Int) (fails : Bool)
  | listEnabledRulesForServer (serverID : Int) (fails : Bool)
  | listEvents (servers : Map Int String) (beforeID limit : Int) (fails : Bool)
  | saveStateAndEvent (now : Time) (state : State F) (event : Option (Event F)) (fails : Bool)

/-- What a call answers. -/
inductive Answer (F : Type) where
  | rule (result : Except RepositoryError (Rule F))
  | state (result : Except RepositoryError (State F))
  | rules (result : Except RepositoryError (List (Rule F)))
  | events (result : Except RepositoryError (List (ListedEvent F)))
  | event (result : Except RepositoryError (Option (Event F)))

/-- The rows of `ListEvents`, of instants as they are. -/
def Database.listEvents (db : Database F) (servers : Map Int String) (beforeID limit : Int)
    (fails : Bool) : Except RepositoryError (List (ListedEvent F)) :=
  if beforeID < 0 ∨ limit < 1 ∨ 100 < limit then .error .invalidInput
  else if fails then .error .failed
  else
    let rows := (EventStore.mk db servers [] 1).selectEvents beforeID limit
    if rows.all EventStore.scannableEvent then .ok rows else .error .badRow

/-- A call on instants as they are. -/
def Database.call (db : Database F) : RepositoryCall F → Answer F × Database F
  | .createRule now rule fails =>
    let (result, db) := Repository.createRule db now rule fails
    (.rule result, db)
  | .updateRule now rule fails stateFails =>
    let (result, db) := Repository.updateRule db now rule fails stateFails
    (.rule result, db)
  | .getState ruleID fails => (.state (Repository.getState db ruleID fails), db)
  | .listEnabledRulesForServer serverID fails =>
    (.rules (Repository.listEnabledRulesForServer db serverID fails), db)
  | .listEvents servers beforeID limit fails =>
    (.events (db.listEvents servers beforeID limit fails), db)
  | .saveStateAndEvent now state event fails =>
    match Repository.saveStateAndEvent db now state event fails with
    | .error e => (.event (.error e), db)
    | .ok (stored, db) => (.event (.ok stored), db)

/-- A call on the columns. -/
def Columns.call (general : List Char → Option Time) (c : Columns F) :
    RepositoryCall F → Answer F × Columns F
  | .createRule now rule fails =>
    let (result, c) := c.createRule general now rule fails
    (.rule result, c)
  | .updateRule now rule fails stateFails =>
    let (result, c) := c.updateRule general now rule fails stateFails
    (.rule result, c)
  | .getState ruleID fails => (.state (c.getState general ruleID fails), c)
  | .listEnabledRulesForServer serverID fails =>
    (.rules (c.listEnabledRulesForServer general serverID fails), c)
  | .listEvents servers beforeID limit fails =>
    (.events (c.listEvents general servers beforeID limit fails), c)
  | .saveStateAndEvent now state event fails =>
    let (result, c) := c.saveStateAndEvent now state event fails
    (.event result, c)

/-- Instants that are written with four digits of the year. -/
def InYears (ts : List Time) : Prop := ∀ t ∈ ts, t.FourDigitYear

instance (ts : List Time) : Decidable (InYears ts) :=
  inferInstanceAs (Decidable (∀ t ∈ ts, t.FourDigitYear))

def State.instants (state : State F) : List Time :=
  state.pendingSince.toList ++ state.firingSince.toList ++ state.lastNotifiedAt.toList

def Event.instants (event : Event F) : List Time :=
  event.startedAt :: event.createdAt :: event.endedAt.toList

/-- The instants a call writes. -/
def RepositoryCall.instants : RepositoryCall F → List Time
  | .createRule now _ _ => [now]
  | .updateRule now _ _ _ => [now]
  | .getState _ _ => []
  | .listEnabledRulesForServer _ _ => []
  | .listEvents _ _ _ _ => []
  | .saveStateAndEvent now state event _ =>
    now :: state.instants ++ event.toList.flatMap Event.instants

/-- The columns are those of the tables, and their instants can be read back. -/
structure Holds (c : Columns F) (db : Database F) : Prop where
  rules : c.rules = db.rules.map Rule.columns
  nextRuleID : c.nextRuleID = db.nextRuleID
  states : ∀ id, AList.lookup id c.states = (db.state? id).map State.columns
  events : c.events = db.events.map Event.columns
  nextEventID : c.nextEventID = db.nextEventID
  rules_years : ∀ rule ∈ db.rules, InYears [rule.createdAt, rule.updatedAt]
  states_years : ∀ id state, db.state? id = some state →
    InYears (state.updatedAt :: state.instants)
  events_years : ∀ event ∈ db.events, InYears event.instants

section Reads

variable (general : List Char → Option Time) {c : Columns F} {db : Database F}

/-- What `formatTime` writes of a year of four digits, `parseTime` reads as it was. -/
theorem parseTime_formatTime {t : Time} (ht : t.FourDigitYear) :
    parseTime general (formatTime t) = .ok t := by
  rw [parseTime, formatTime, Time.parse_format general ht]

/-- So do the columns of the instants that may be missing. -/
theorem parseOptionalTime_optionalTime {t : Option Time} (ht : InYears t.toList) :
    parseOptionalTime general (optionalTime t) = .ok t := by
  cases t with
  | none => rfl
  | some t =>
    show (parseTime general (formatTime t)).map some = _
    rw [parseTime_formatTime general (ht t (by simp))]
    rfl

/-- A rule is read back from its columns. -/
theorem scanRule_columns {rule : Rule F} (hyears : InYears [rule.createdAt, rule.updatedAt]) :
    scanRule general rule.columns =
      if scannable rule = true then .ok rule else .error .badRow := by
  have henabled : (boolInt rule.enabled != 0) = rule.enabled := by cases rule.enabled <;> rfl
  have hcreated := parseTime_formatTime general (hyears _ List.mem_cons_self)
  have hupdated := parseTime_formatTime general
    (hyears _ (List.mem_cons_of_mem _ (List.mem_singleton_self _)))
  simp only [scanRule, scannable, Rule.columns, hcreated, hupdated, henabled]
  by_cases hmetric : validMetric rule.metric = true
  · by_cases hoperator : validOperator rule.operator = true
    · simp only [hmetric, hoperator, Bool.not_true, Bool.or_self, Bool.false_eq_true, if_false,
        Bool.and_self, if_true]
      rfl
    · simp [hmetric, hoperator]
  · simp [hmetric]

/-- A state is read back from its columns. -/
theorem scanState_columns {state : State F} (hyears : InYears (state.updatedAt :: state.instants)) :
    scanState general state.columns =
      if validStatus state.status = true then .ok state else .error .badRow := by
  have hmem : ∀ {ts : List Time}, ts ⊆ state.updatedAt :: state.instants → InYears ts :=
    fun hsub t ht => hyears t (hsub ht)
  have hpending := parseOptionalTime_optionalTime general
    (t := state.pendingSince) (hmem fun t ht => by simp [State.instants, ht])
  have hfiring := parseOptionalTime_optionalTime general
    (t := state.firingSince) (hmem fun t ht => by simp [State.instants, ht])
  have hnotified := parseOptionalTime_optionalTime general
    (t := state.lastNotifiedAt) (hmem fun t ht => by simp [State.instants, ht])
  have hupdated := parseTime_formatTime general (hyears _ List.mem_cons_self)
  simp only [scanState, State.columns, hpending, hfiring, hnotified, hupdated]
  by_cases hstatus : validStatus state.status = true
  · simp only [hstatus, Bool.not_true, Bool.false_eq_true, if_false, if_true]
    rfl
  · simp [hstatus]

/-! ## The columns answer for the tables -/

theorem holds_empty : Holds (Columns.empty : Columns F) Database.empty where
  rules := rfl
  nextRuleID := rfl
  states := fun _ => rfl
  events := rfl
  nextEventID := rfl
  rules_years := fun _ h => absurd h List.not_mem_nil
  states_years := fun id state h => by rw [Database.state?_empty] at h; cases h
  events_years := fun _ h => absurd h List.not_mem_nil

/-- A valid rule has names of columns, which scan. -/
theorem validateRule_scannable {rule : Rule F} (h : validateRule rule = true) :
    scannable rule = true := by
  simp only [validateRule, Bool.and_eq_true] at h
  rw [scannable, h.1.1.1.2, h.1.1.2, Bool.and_self]

/-- The row that `CreateRule` writes scans as the rule that it returns. -/
theorem Holds.createRule (h : Holds c db) {now : Time} (hnow : now.FourDigitYear) (rule : Rule F)
    (fails : Bool) :
    (c.createRule general now rule fails).1 = (Repository.createRule db now rule fails).1 ∧
      Holds (c.createRule general now rule fails).2
        (Repository.createRule db now rule fails).2 := by
  unfold Columns.createRule Repository.createRule
  by_cases hvalid : validateRule rule = false
  · rw [if_pos hvalid, if_pos hvalid]
    exact ⟨rfl, h⟩
  rw [if_neg hvalid, if_neg hvalid]
  cases fails with
  | true => exact ⟨rfl, h⟩
  | false =>
    rw [if_neg Bool.false_ne_true, if_neg Bool.false_ne_true, h.nextRuleID]
    have hyears : InYears [now, now] := by simpa [InYears] using hnow
    have hscan := @scanRule_columns F general
      { rule with id := db.nextRuleID, createdAt := now, updatedAt := now } hyears
    have hscannable : scannable rule = true :=
      validateRule_scannable (Bool.eq_true_of_not_eq_false hvalid)
    refine ⟨hscan.trans (if_pos hscannable), ?_⟩
    exact
      { rules := by
          show c.rules ++ [_] = (db.rules ++ [_]).map Rule.columns
          rw [List.map_append, ← h.rules]
          rfl
        nextRuleID := rfl
        states := h.states
        events := h.events
        nextEventID := h.nextEventID
        rules_years := List.forall_mem_append.mpr ⟨h.rules_years, fun row hrow =>
          List.mem_singleton.mp hrow ▸ hyears⟩
        states_years := h.states_years
        events_years := h.events_years }

/-- A state that was never saved is normal, and one that was is read as it was saved. -/
theorem Holds.getState (h : Holds c db) (ruleID : Int) (fails : Bool) :
    c.getState general ruleID fails = Repository.getState db ruleID fails := by
  unfold Columns.getState Repository.getState
  rw [h.states]
  split
  next => rfl
  next =>
    split
    next => rfl
    next =>
      cases hstate : db.state? ruleID with
      | none => rfl
      | some state => exact scanState_columns general (h.states_years ruleID state hstate)

/-- A listing ends at the first row that is not read back. -/
theorem mapM_scan {A B : Type} {columns : A → B} {scan : B → Except RepositoryError A}
    {scannable : A → Bool} {rows : List A} (h : ∀ row ∈ rows, scan (columns row) =
      if scannable row = true then .ok row else .error .badRow) :
    (rows.map columns).mapM scan =
      if rows.all scannable = true then .ok rows else .error .badRow := by
  induction rows with
  | nil => rfl
  | cons row rows ih =>
    obtain ⟨hrow, hrows⟩ := List.forall_mem_cons.mp h
    rw [List.map_cons, List.mapM_cons, hrow, ih hrows, List.all_cons]
    by_cases hscan : scannable row = true
    · by_cases hall : rows.all scannable = true
      · rw [if_pos hscan, if_pos hall, if_pos (by rw [hscan, hall]; rfl)]
        rfl
      · rw [if_pos hscan, if_neg hall, if_neg (by rw [hscan, Bool.true_and]; exact hall)]
        rfl
    · rw [if_neg hscan, Bool.eq_false_iff.mpr hscan]
      rfl

/-- The enabled rules of a server are those whose columns say so. -/
theorem Holds.listEnabledRulesForServer (h : Holds c db) (serverID : Int) (fails : Bool) :
    c.listEnabledRulesForServer general serverID fails =
      Repository.listEnabledRulesForServer db serverID fails := by
  unfold Columns.listEnabledRulesForServer Repository.listEnabledRulesForServer
  split
  next => rfl
  next =>
    split
    next => rfl
    next =>
      have hfilter : (db.rules.map Rule.columns).filter
          (fun row => row.serverID == serverID && row.enabled == 1) =
          (db.rules.filter fun rule => rule.serverID == serverID && rule.enabled).map
            Rule.columns := by
        rw [List.filter_map]
        refine congrArg (List.map _) (List.filter_congr fun rule _ => ?_)
        show (rule.serverID == serverID && boolInt rule.enabled == 1) = _
        cases rule.enabled <;> rfl
      rw [h.rules, hfilter]
      exact mapM_scan fun rule hrule =>
        scanRule_columns general (h.rules_years rule (List.mem_of_mem_filter hrule))

/-- The columns that are selected of a listed event. -/
def ListedEvent.selection (row : ListedEvent F) : EventSelection F :=
  { event := row.event.columns, serverName := row.serverName, metric := row.metric }

/-- A listed event is read back from its columns. -/
theorem scanEvent_selection {row : ListedEvent F} (hyears : InYears row.event.instants)
    (hattempts : row.attempts = []) : scanEvent general row.selection =
      if EventStore.scannableEvent row = true then .ok row else .error .badRow := by
  have hstarted := parseTime_formatTime general (hyears _ List.mem_cons_self)
  have hcreated := parseTime_formatTime general
    (hyears _ (List.mem_cons_of_mem _ List.mem_cons_self))
  have hended := parseOptionalTime_optionalTime general (t := row.event.endedAt)
    fun t ht => hyears t (List.mem_cons_of_mem _ (List.mem_cons_of_mem _ ht))
  simp only [scanEvent, ListedEvent.selection, Event.columns, hstarted, hcreated, hended,
    EventStore.scannableEvent]
  by_cases hmetric : validMetric row.metric = true
  · by_cases hstatus : validStatus row.event.status = true
    · simp only [hmetric, hstatus, Bool.not_true, Bool.or_self, Bool.false_eq_true, if_false,
        Bool.and_self, if_true]
      show Except.ok { row with attempts := [] } = Except.ok row
      rw [← hattempts]
    · simp [hmetric, hstatus]
  · simp [hmetric]

/-- An event joins with the server and the rule that its columns name. -/
theorem Holds.joined (h : Holds c db) (servers : Map Int String) (event : Event F) :
    c.joined servers event.columns =
      ((EventStore.mk db servers [] 1).joined event).map ListedEvent.selection := by
  unfold Columns.joined EventStore.joined
  have hfind : c.rules.find? (·.id == event.columns.ruleID) =
      (db.rule? event.ruleID).map Rule.columns := by
    rw [h.rules, List.find?_map]
    rfl
  rw [hfind]
  show (AList.lookup event.serverID servers).bind _ = Option.map _ ((AList.lookup _ _).bind _)
  cases AList.lookup event.serverID servers with
  | none => rfl
  | some name =>
    cases hrule : db.rule? event.ruleID with
    | none => rfl
    | some rule => rfl

/-- A page of events is the same of the columns and of what they hold. -/
theorem Holds.listEvents (h : Holds c db) (servers : Map Int String) (beforeID limit : Int)
    (fails : Bool) :
    c.listEvents general servers beforeID limit fails =
      db.listEvents servers beforeID limit fails := by
  unfold Columns.listEvents Database.listEvents
  split
  next => rfl
  next =>
    split
    next => rfl
    next =>
      have hjoined : c.events.filterMap (c.joined servers) =
          (db.events.filterMap (EventStore.mk db servers [] 1).joined).map
            ListedEvent.selection := by
        rw [h.events, List.filterMap_map, List.map_filterMap]
        exact List.filterMap_congr fun event _ => h.joined servers event
      have hselect : (Keyset.backwards (·.event.id) (EventStore.admits beforeID)
          (c.events.filterMap (c.joined servers))).take limit.toNat =
            ((EventStore.mk db servers [] 1).selectEvents beforeID limit).map
              ListedEvent.selection := by
        rw [hjoined, Keyset.backwards, List.filter_map, ← List.map_reverse, ← List.map_take]
        rfl
      rw [hselect]
      refine mapM_scan fun row hrow => ?_
      have hmem := List.mem_of_mem_filter (List.mem_reverse.mp (List.mem_of_mem_take hrow))
      obtain ⟨event, hevent, hjoin⟩ := List.mem_filterMap.mp hmem
      have hfields : row.event = event ∧ row.attempts = [] := by
        unfold EventStore.joined at hjoin
        simp only [bind, Option.bind_eq_some_iff, pure, Option.some.injEq] at hjoin
        obtain ⟨name, -, rule, -, rfl⟩ := hjoin
        exact ⟨rfl, rfl⟩
      exact scanEvent_selection general (hfields.1 ▸ h.events_years event hevent) hfields.2

/-- An update writes the columns of the rule that it returns, and keeps the others. -/
theorem Holds.updateRule (h : Holds c db) {now : Time} (hnow : now.FourDigitYear) (rule : Rule F)
    (fails stateFails : Bool) :
    (c.updateRule general now rule fails stateFails).1 =
        (Repository.updateRule db now rule fails stateFails).1 ∧
      Holds (c.updateRule general now rule fails stateFails).2
        (Repository.updateRule db now rule fails stateFails).2 := by
  unfold Columns.updateRule Repository.updateRule
  by_cases hinput : rule.id < 1 ∨ validateRule rule = false
  · rw [if_pos hinput, if_pos hinput]
    exact ⟨rfl, h⟩
  rw [if_neg hinput, if_neg hinput]
  cases fails with
  | true => exact ⟨rfl, h⟩
  | false =>
    rw [if_neg Bool.false_ne_true, if_neg Bool.false_ne_true]
    dsimp only
    have hfind : c.rules.find? (·.id == rule.id) = (db.rule? rule.id).map Rule.columns := by
      rw [h.rules, List.find?_map]
      rfl
    rw [hfind]
    cases hrow : db.rule? rule.id with
    | none => exact ⟨rfl, h⟩
    | some row =>
      have hmem := Database.rule?_mem hrow
      have hwritten : ∀ old ∈ db.rules, InYears [(Repository.updatedRow now rule old).createdAt,
          (Repository.updatedRow now rule old).updatedAt] := fun old hold => by
        have := h.rules_years old hold
        simp [InYears, Repository.updatedRow] at this ⊢
        exact ⟨this.1, hnow⟩
      -- the tables after the update hold those of the columns
      have hholds : Holds
          { c with rules := c.rules.map fun row => if row.id = rule.id then
              { rule.columns with
                id := row.id, createdAt := row.createdAt, updatedAt := formatTime now }
            else row }
          (db.replaceRule rule.id (Repository.updatedRow now rule)) :=
        { rules := by
            show c.rules.map _ = (db.rules.map _).map Rule.columns
            rw [h.rules, List.map_map, List.map_map]
            refine List.map_congr_left fun old _ => ?_
            show (if old.id = rule.id then _ else _) =
              Rule.columns (if old.id = rule.id then _ else _)
            split <;> rfl
          nextRuleID := h.nextRuleID
          states := h.states
          events := h.events
          nextEventID := h.nextEventID
          rules_years := fun new hnew => by
            obtain ⟨old, hold, rfl⟩ := List.mem_map.mp hnew
            split
            next => exact hwritten old hold
            next => exact h.rules_years old hold
          states_years := h.states_years
          events_years := h.events_years }
      have hvalid : scannable rule = true :=
        validateRule_scannable (Bool.eq_true_of_not_eq_false fun hfalse => hinput (Or.inr hfalse))
      have hscan := (scanRule_columns general (hwritten row hmem)).trans (if_pos hvalid)
      have hstate := hholds.getState general rule.id stateFails
      have hrowID : row.id = rule.id := Database.rule?_id hrow
      have hid : (Repository.updatedRow now rule row).id = rule.id := hrowID
      simp only [Option.map_some]
      have hscan' : scanRule general { rule.columns with
          id := row.columns.id, createdAt := row.columns.createdAt, updatedAt := formatTime now } =
            .ok (Repository.updatedRow now rule row) := hscan
      rw [hscan']
      dsimp only
      rw [hid, hstate]
      cases Repository.getState (db.replaceRule rule.id (Repository.updatedRow now rule)) rule.id
        stateFails with
      | ok state => exact ⟨rfl, hholds⟩
      | error e => cases e <;> exact ⟨rfl, hholds⟩

/-- A state and its event are stored together, and read as they were given. -/
theorem Holds.saveStateAndEvent (h : Holds c db) {now : Time} {state : State F}
    {event : Option (Event F)} (hnow : now.FourDigitYear) (hstate : InYears state.instants)
    (hevents : InYears (event.toList.flatMap Event.instants)) (fails : Bool) :
    (Columns.call general c (.saveStateAndEvent now state event fails)).1 =
        (Database.call db (.saveStateAndEvent now state event fails)).1 ∧
      Holds (Columns.call general c (.saveStateAndEvent now state event fails)).2
        (Database.call db (.saveStateAndEvent now state event fails)).2 := by
  simp only [Columns.call, Database.call, Columns.saveStateAndEvent, Repository.saveStateAndEvent]
  split
  next => exact ⟨rfl, h⟩
  next =>
    split
    next => exact ⟨rfl, h⟩
    next =>
      split
      next => exact ⟨rfl, h⟩
      next =>
        have hholds : Holds
            { c with states := c.states.insert state.ruleID { state with updatedAt := now }.columns }
            (db.putState { state with updatedAt := now }) :=
          { rules := h.rules
            nextRuleID := h.nextRuleID
            states := fun id => by
              rw [Map.lookup_insert, Database.state?_putState, h.states]
              split <;> rfl
            events := h.events
            nextEventID := h.nextEventID
            rules_years := h.rules_years
            states_years := fun id row hrow => by
              rw [Database.state?_putState] at hrow
              split at hrow
              next =>
                cases hrow
                exact List.forall_mem_cons.mpr ⟨hnow, hstate⟩
              next => exact h.states_years id row hrow
            events_years := h.events_years }
        cases event with
        | none => exact ⟨rfl, hholds⟩
        | some e =>
          have hevent : InYears (Repository.insertedEvent db now e).instants := by
            simp only [Option.toList_some, List.flatMap_cons, List.flatMap_nil,
              List.append_nil] at hevents
            intro t ht
            simp only [Event.instants, Repository.insertedEvent, List.mem_cons] at ht
            rcases ht with rfl | rfl | ht
            · exact hevents _ List.mem_cons_self
            · split
              next => exact hnow
              next => exact hevents _ (List.mem_cons_of_mem _ List.mem_cons_self)
            · exact hevents t (List.mem_cons_of_mem _ (List.mem_cons_of_mem _ ht))
          refine ⟨?_, ?_⟩
          · simp [Repository.insertedEvent, h.nextEventID]
          · exact
              { rules := h.rules
                nextRuleID := h.nextRuleID
                states := hholds.states
                events := by
                  show c.events ++ [_] = (db.events ++ [_]).map Event.columns
                  rw [List.map_append, ← h.events, h.nextEventID]
                  rfl
                nextEventID := congrArg (· + 1) h.nextEventID
                rules_years := h.rules_years
                states_years := hholds.states_years
                events_years := List.forall_mem_append.mpr ⟨h.events_years, fun stored hstored =>
                  List.mem_singleton.mp hstored ▸ hevent⟩ }

/-- **A call on the columns** answers what it answers on the tables. -/
theorem Holds.call (h : Holds c db) {call : RepositoryCall F} (hyears : InYears call.instants) :
    (Columns.call general c call).1 = (db.call call).1 ∧
      Holds (Columns.call general c call).2 (db.call call).2 := by
  cases call with
  | createRule now rule fails =>
    have hrule := h.createRule general (hyears now List.mem_cons_self) rule fails
    exact ⟨congrArg Answer.rule hrule.1, hrule.2⟩
  | updateRule now rule fails stateFails =>
    have hrule := h.updateRule general (hyears now List.mem_cons_self) rule fails
      stateFails
    exact ⟨congrArg Answer.rule hrule.1, hrule.2⟩
  | getState ruleID fails => exact ⟨congrArg Answer.state (h.getState general ruleID fails), h⟩
  | listEnabledRulesForServer serverID fails =>
    exact ⟨congrArg Answer.rules (h.listEnabledRulesForServer general serverID fails), h⟩
  | listEvents servers beforeID limit fails =>
    exact ⟨congrArg Answer.events (h.listEvents general servers beforeID limit fails), h⟩
  | saveStateAndEvent now state event fails =>
    refine h.saveStateAndEvent general (hyears now List.mem_cons_self) (fun t ht => hyears t ?_)
      (fun t ht => hyears t ?_) fails
    · exact List.mem_cons_of_mem _ (List.mem_append_left _ ht)
    · exact List.mem_cons_of_mem _ (List.mem_append_right _ ht)

end Reads

/-! ## Runs -/

/-- What a run of calls answers, on the tables and on the columns. -/
def Database.answers (db : Database F) : List (RepositoryCall F) → List (Answer F)
  | [] => []
  | call :: calls => (db.call call).1 :: (db.call call).2.answers calls

def Columns.answers (general : List Char → Option Time) (c : Columns F) :
    List (RepositoryCall F) → List (Answer F)
  | [] => []
  | call :: calls =>
    (Columns.call general c call).1 :: (Columns.call general c call).2.answers general calls

/-- From what the columns hold, every sequence of calls has the same answers. -/
theorem Holds.answers (general : List Char → Option Time) {c : Columns F} {db : Database F}
    (h : Holds c db) {calls : List (RepositoryCall F)}
    (hyears : ∀ call ∈ calls, InYears call.instants) :
    c.answers general calls = db.answers calls := by
  induction calls generalizing c db with
  | nil => rfl
  | cons call calls ih =>
    obtain ⟨hcall, hcalls⟩ := List.forall_mem_cons.mp hyears
    obtain ⟨hanswer, hnext⟩ := h.call general hcall
    rw [Columns.answers, Database.answers, hanswer, ih hnext hcalls]

/-- **The columns lose nothing**: from empty tables, every run of `CreateRule`, `UpdateRule`,
`GetState`, `ListEnabledRulesForServer`, `ListEvents` (without the attempts) and `SaveStateAndEvent`
answers from the text columns what it answers from the instants themselves. -/
theorem answers_eq (general : List Char → Option Time) (calls : List (RepositoryCall F))
    (hyears : ∀ call ∈ calls, InYears call.instants) :
    (Columns.empty : Columns F).answers general calls = Database.empty.answers calls :=
  holds_empty.answers general hyears

/-- A rule is created in 2024 and fires, and its state and event are read. -/
def firstFiring : List (RepositoryCall Nat) :=
  [.createRule (.ofUnix 1704067200)
      { id := 0, serverID := 1, metric := .cpuUsage, operator := .greaterThan, threshold := 90
        durationSeconds := 0, repeatSeconds := 0, enabled := true, createdAt := .zero
        updatedAt := .zero } false,
    .saveStateAndEvent ⟨1704067260500000000⟩
      { State.fresh 1 with status := .firing, firingSince := some ⟨1704067260500000000⟩ }
      (some { id := 0, ruleID := 1, serverID := 1, status := .firing, currentValue := some 95
              threshold := some 90, startedAt := ⟨1704067260500000000⟩, endedAt := none
              createdAt := .zero }) false,
    .getState 1 false,
    .listEvents ((∅ : Map Int String).insert 1 "web") 0 20 false]

/-- A rule, its first event and what is read of them. -/
theorem firstFiring_answers :
    (∀ call ∈ firstFiring, InYears call.instants) ∧
      (Columns.empty : Columns Nat).answers (fun _ => none) firstFiring =
        Database.empty.answers firstFiring := by
  have hyears : ∀ call ∈ firstFiring, InYears call.instants := by decide +kernel
  exact ⟨hyears, answers_eq _ firstFiring hyears⟩

end TinyProbe.Alerting
