import TinyProbe.Lib.Keyset
import TinyProbe.Lib.Run
import TinyProbe.Alerting.Repository

/-!
# The event history

`ListEvents` joins each event with the name of its server and the metric of its rule, as they are
when it is read. Everything else it reports is in the event's row, which no statement changes: the
table only grows (`events_grow`). The metric stays what it was as long as no update of the rule
writes another one (`metric_run`).

Pages go from the newest event back, each from below the last id of the page before. Events are
appended in between, above the first page, so the pages together are the history as it was when the
first of them was read (`WellFormed.followPages`).

The keys into `servers`, `alert_rules` and `alert_events` are checked here, for a listing leaves out
an event without its server or its rule.
-/

namespace TinyProbe.Alerting

open TinyProbe.Run

variable {F : Type}

/-- `Attempt`. -/
structure Attempt where
  id : Int
  eventID : Option Int
  isTest : Bool
  attempt : Int
  responseStatus : Option Int
  errorText : String
  sentAt : Time
deriving DecidableEq

/-- An `Event` as `ListEvents` reports it: the row, the joined columns and the attempts. -/
structure ListedEvent (F : Type) where
  event : Event F
  serverName : String
  metric : Metric
  attempts : List Attempt
deriving DecidableEq

/-- The alert tables with the names of the servers and the table of attempts. -/
structure EventStore (F : Type) where
  db : Database F
  servers : Map Int String
  attempts : List Attempt
  nextAttemptID : Int

namespace EventStore

/-- The key into `servers`. -/
def hasServer (s : EventStore F) (id : Int) : Bool := (AList.lookup id s.servers).isSome

/-- The key into `alert_rules`. -/
def hasRule (s : EventStore F) (id : Int) : Bool := (s.db.rule? id).isSome

/-- The key into `alert_events`. -/
def hasEvent (s : EventStore F) (id : Int) : Bool := s.db.events.any (·.id == id)

/-- `RecordAttempt`. -/
def recordAttempt (s : EventStore F) (now : Time) (attempt : Attempt) (fails : Bool) :
    Except RepositoryError Attempt × EventStore F :=
  if attempt.attempt < 1 ∨ attempt.eventID.any (· < 1) then (.error .invalidInput, s)
  else if fails || !attempt.eventID.all s.hasEvent then (.error .failed, s)
  else
    let row :=
      { attempt with
        id := s.nextAttemptID
        sentAt := if attempt.sentAt = .zero then now else attempt.sentAt }
    (.ok row, { s with attempts := s.attempts ++ [row], nextAttemptID := s.nextAttemptID + 1 })

/-- `ListAttempts`. -/
def listAttempts (s : EventStore F) (eventID : Int) (fails : Bool) :
    Except RepositoryError (List Attempt) :=
  if eventID < 1 then .error .invalidInput
  else if fails then .error .failed
  else .ok (s.attempts.filter (·.eventID == some eventID))

/-- An event with the columns of the two joins. -/
def joined (s : EventStore F) (event : Event F) : Option (ListedEvent F) := do
  let serverName ← AList.lookup event.serverID s.servers
  let rule ← s.db.rule? event.ruleID
  return { event, serverName, metric := rule.metric, attempts := [] }

/-- The checks of `scanEvent`. -/
def scannableEvent (row : ListedEvent F) : Bool :=
  validMetric row.metric && validStatus row.event.status

/-- `e.id<?`, or every event without a bound. -/
def admits (beforeID id : Int) : Bool := beforeID = 0 ∨ id < beforeID

/-- The query of `ListEvents`. -/
def selectEvents (s : EventStore F) (beforeID limit : Int) : List (ListedEvent F) :=
  (Keyset.backwards (·.event.id) (admits beforeID) (s.db.events.filterMap s.joined)).take limit.toNat

/-- `ListEvents`. -/
def listEvents (s : EventStore F) (beforeID limit : Int) (fails attemptsFail : Bool) :
    Except RepositoryError (List (ListedEvent F)) :=
  if beforeID < 0 ∨ limit < 1 ∨ 100 < limit then .error .invalidInput
  else if fails then .error .failed
  else
    let rows := s.selectEvents beforeID limit
    if rows.all scannableEvent then
      rows.mapM fun row =>
        (s.listAttempts row.event.id attemptsFail).map fun attempts => { row with attempts }
    else .error .badRow

/-! ## Runs -/

inductive Action (F : Type) where
  | updateRule (now : Time) (rule : Rule F) (fails stateFails : Bool)
  | saveStateAndEvent (now : Time) (state : State F) (event : Option (Event F)) (fails : Bool)
  | recordAttempt (now : Time) (attempt : Attempt) (fails : Bool)

/-- The rows a save refers to exist. -/
def references (s : EventStore F) (state : State F) (event : Option (Event F)) : Bool :=
  s.hasRule state.ruleID && event.all fun e => s.hasRule e.ruleID && s.hasServer e.serverID

def step (s : EventStore F) : Action F → EventStore F
  | .updateRule now rule fails stateFails =>
    { s with
      db := (Repository.updateRule s.db now rule (fails || !s.hasServer rule.serverID)
        stateFails).2 }
  | .saveStateAndEvent now state event fails =>
    match Repository.saveStateAndEvent s.db now state event
      (fails || !s.references state event) with
    | .error _ => s
    | .ok (_, db) => { s with db }
  | .recordAttempt now attempt fails => (s.recordAttempt now attempt fails).2

/-- An update that writes the rule keeps its metric. -/
def KeepsMetric (id : Int) (s : EventStore F) : Action F → Prop
  | .updateRule _ rule fails _ =>
    rule.id = id → 1 ≤ rule.id → validateRule rule = true →
      (fails || !s.hasServer rule.serverID) = false →
        ∀ row ∈ s.db.rule? rule.id, rule.metric = row.metric
  | _ => True

/-- The rows scan, and their keys exist. -/
structure WellFormed (s : EventStore F) : Prop where
  rules : ∀ rule ∈ s.db.rules, validMetric rule.metric = true
  statuses : ∀ e ∈ s.db.events, validStatus e.status = true
  ids : ∀ e ∈ s.db.events, 1 ≤ e.id
  ruleKeys : ∀ e ∈ s.db.events, s.hasRule e.ruleID = true
  serverKeys : ∀ e ∈ s.db.events, s.hasServer e.serverID = true
  next : 1 ≤ s.db.nextEventID

section Steps

variable {s : EventStore F} {a : Action F}

/-- What a step does to the rows that a listing reads: it keeps the rules and their ids, and
appends events of known servers and rules. -/
structure Follows (s s' : EventStore F) : Prop where
  servers : s'.servers = s.servers
  hasRule : ∀ id, s'.hasRule id = s.hasRule id
  rules : (∀ rule ∈ s.db.rules, validMetric rule.metric = true) →
    ∀ rule ∈ s'.db.rules, validMetric rule.metric = true
  events : ∃ appended, s'.db.events = s.db.events ++ appended ∧ ∀ e ∈ appended,
    validStatus e.status = true ∧ s.db.nextEventID ≤ e.id ∧ s.hasRule e.ruleID = true ∧
      s.hasServer e.serverID = true
  next : s.db.nextEventID ≤ s'.db.nextEventID

/-- A step that appends nothing. -/
theorem Follows.of_events {s' : EventStore F} (hservers : s'.servers = s.servers)
    (hrule : ∀ id, s'.hasRule id = s.hasRule id)
    (hrules : (∀ rule ∈ s.db.rules, validMetric rule.metric = true) →
      ∀ rule ∈ s'.db.rules, validMetric rule.metric = true)
    (hevents : s'.db.events = s.db.events)
    (hnext : s'.db.nextEventID = s.db.nextEventID) : Follows s s' where
  servers := hservers
  hasRule := hrule
  rules := hrules
  events := ⟨[], by rw [hevents, List.append_nil], fun _ h => absurd h List.not_mem_nil⟩
  next := Int.le_of_eq hnext.symm

/-- A state follows itself. -/
theorem Follows.same : Follows s s := .of_events rfl (fun _ => rfl) id rfl rfl

private theorem hasRule_replaceRule (db : Database F) (id id' : Int) (f : Rule F → Rule F) :
    ((db.replaceRule id' f).rule? id).isSome = (db.rule? id).isSome := by
  rw [Database.rule?_replaceRule, Option.isSome_map]

/-- Every operation of the store keeps its events, and adds to them. -/
theorem follows_step (s : EventStore F) (a : Action F) : Follows s (step s a) := by
  cases a with
  | updateRule now rule fails stateFails =>
    rw [step]
    rcases @Repository.updateRule_db F s.db now rule (fails || !s.hasServer rule.serverID)
      stateFails with heq | ⟨hupdates, heq⟩
    · rw [heq]
      exact Follows.same
    · rw [heq]
      refine .of_events rfl (fun id => hasRule_replaceRule s.db id rule.id _) (fun h row hrow => ?_)
        rfl rfl
      obtain ⟨old, hold, rfl⟩ := List.mem_map.mp hrow
      have hvalid := Repository.validateRule_of_updates hupdates
      simp only [validateRule, Bool.and_eq_true] at hvalid
      split
      next => exact hvalid.1.1.1.2
      next => exact h old hold
  | saveStateAndEvent now state event fails =>
    rw [step]
    unfold Repository.saveStateAndEvent
    split
    next => exact Follows.same
    next stored db hsave =>
      split at hsave
      next => cases hsave
      next =>
        split at hsave
        next => cases hsave
        next hevent =>
          split at hsave
          next => cases hsave
          next hkeys =>
            cases hsave
            have hreferences : s.references state event = true := by
              cases h : s.references state event with
              | true => rfl
              | false => rw [h, Bool.not_false, Bool.or_true] at hkeys; exact absurd rfl hkeys
            obtain ⟨_, hrefs⟩ := Bool.and_eq_true_iff.mp hreferences
            have hrule : ∀ id, ((Repository.saved s.db now state event).rule? id).isSome =
                (s.db.rule? id).isSome := fun id => by
              rw [Database.rule?_congr (Repository.rules_saved state event)]
            cases event with
            | none => exact .of_events rfl hrule id rfl rfl
            | some e =>
              obtain ⟨hruleKey, hserverKey⟩ := Bool.and_eq_true_iff.mp hrefs
              refine ⟨rfl, hrule, id, ⟨[_], rfl, fun e' he' => ?_⟩, Int.le_of_lt (Int.lt_succ _)⟩
              rw [List.mem_singleton.mp he']
              refine ⟨?_, Int.le_refl _, hruleKey, hserverKey⟩
              simp only [Option.any_some, Bool.or_eq_true, Bool.not_eq_true', not_or,
                Bool.not_eq_false] at hevent
              exact hevent.2
  | recordAttempt now attempt fails =>
    rw [step]
    unfold recordAttempt
    split
    next => exact Follows.same
    next =>
      split
      next => exact Follows.same
      next => exact .of_events rfl (fun _ => rfl) id rfl rfl

/-- What follows a well-formed history is one. -/
theorem WellFormed.follows {s' : EventStore F} (h : WellFormed s) (hf : Follows s s') :
    WellFormed s' := by
  obtain ⟨appended, hevents, happended⟩ := hf.events
  have hserver : ∀ id, s'.hasServer id = s.hasServer id := fun id => by
    rw [hasServer, hf.servers, hasServer]
  have hall : ∀ {P : Event F → Prop}, (∀ e ∈ s.db.events, P e) → (∀ e ∈ appended, P e) →
      ∀ e ∈ s'.db.events, P e := fun hold hnew => by
    rw [hevents]
    exact List.forall_mem_append.mpr ⟨hold, hnew⟩
  exact
    { rules := hf.rules h.rules
      statuses := hall h.statuses fun e he => (happended e he).1
      ids := hall h.ids fun e he => Int.le_trans h.next (happended e he).2.1
      ruleKeys := hall (fun e he => (hf.hasRule _).trans (h.ruleKeys e he)) fun e he =>
        (hf.hasRule _).trans (happended e he).2.2.1
      serverKeys := hall (fun e he => (hserver _).trans (h.serverKeys e he)) fun e he =>
        (hserver _).trans (happended e he).2.2.2
      next := Int.le_trans h.next hf.next }

/-- Every run keeps the history well formed. -/
theorem WellFormed.run (h : WellFormed s) (as : List (Action F)) : WellFormed (run step s as) :=
  run_invariant (fun s a (hs : WellFormed s) => hs.follows (follows_step s a)) h as

/-- **The table of events only grows.** -/
theorem events_grow (s : EventStore F) (as : List (Action F)) :
    s.db.events <+: (run step s as).db.events := by
  refine run_invariant (fun (s' : EventStore F) a (hs' : s.db.events <+: s'.db.events) => ?_)
    (List.prefix_refl _) as
  obtain ⟨appended, hevents, _⟩ := (follows_step s' a).events
  rw [hevents]
  exact hs'.trans (List.prefix_append _ _)

/-- The metric of a rule, when there is one. -/
def metric? (s : EventStore F) (id : Int) : Option Metric := (s.db.rule? id).map Rule.metric

/-- A step that keeps the metric of a rule keeps what is listed of it. -/
theorem metric_step {id : Int} (hkeep : KeepsMetric id s a) :
    (step s a).metric? id = s.metric? id := by
  cases a with
  | updateRule now rule fails stateFails =>
    rw [step, metric?]
    rcases @Repository.updateRule_db F s.db now rule (fails || !s.hasServer rule.serverID)
      stateFails with heq | ⟨hupdates, heq⟩
    · rw [heq, metric?]
    · rw [heq, Database.rule?_replaceRule, Option.map_map, metric?]
      cases hrow : s.db.rule? id with
      | none => rfl
      | some row =>
        refine congrArg some ?_
        show (if row.id = rule.id then _ else row).metric = row.metric
        split
        next hid =>
          rw [Database.rule?_id hrow] at hid
          simp only [Repository.updates, Bool.and_eq_true, decide_eq_true_eq,
            Bool.not_eq_true'] at hupdates
          obtain ⟨⟨⟨hpos, hvalid⟩, hfails⟩, _⟩ := hupdates
          exact hkeep hid.symm hpos hvalid hfails row (hid ▸ hrow)
        next => rfl
  | saveStateAndEvent now state event fails =>
    rw [step]
    split
    next => rfl
    next stored db hsave =>
      rcases Repository.saveStateAndEvent_cases now state event
        (fails || !s.references state event) with ⟨err, herr⟩ | hok
      · rw [herr] at hsave
        cases hsave
      · rw [hok] at hsave
        cases hsave
        rw [metric?, Database.rule?_congr (Repository.rules_saved state event), metric?]
  | recordAttempt now attempt fails =>
    rw [step]
    unfold recordAttempt
    split
    next => rfl
    next => split <;> rfl

/-- **Updates that keep the metric** leave the rule the metric it had. -/
theorem metric_run {as : List (Action F)} {id : Int} (h : Guarded step (KeepsMetric id) s as) :
    (run step s as).metric? id = s.metric? id :=
  h.invariant (fun (s' : EventStore F) _ hkeep (hs : s'.metric? id = s.metric? id) =>
    (metric_step hkeep).trans hs) rfl

end Steps

/-! ## Listings -/

section Listing

variable {s : EventStore F} {beforeID limit : Int}

/-- The row of an event whose server and rule exist, with its attempts. -/
def Shows (s : EventStore F) (event : Event F) (row : ListedEvent F) : Prop :=
  row.event = event ∧ some row.metric = s.metric? event.ruleID ∧
    some row.serverName = AList.lookup event.serverID s.servers ∧
    row.attempts = s.attempts.filter (·.eventID == some event.id)

/-- No event drops out of the join. -/
theorem WellFormed.joined (h : WellFormed s) {e : Event F} (he : e ∈ s.db.events) :
    ∃ row, s.joined e = some row ∧ row.event = e ∧ some row.metric = s.metric? e.ruleID ∧
      some row.serverName = AList.lookup e.serverID s.servers ∧ scannableEvent row = true := by
  obtain ⟨rule, hrule⟩ := Option.isSome_iff_exists.mp (h.ruleKeys e he)
  obtain ⟨name, hname⟩ := Option.isSome_iff_exists.mp (h.serverKeys e he)
  refine ⟨{ event := e, serverName := name, metric := rule.metric, attempts := [] }, ?_, rfl, ?_, ?_,
    ?_⟩
  · rw [EventStore.joined, hname, hrule]
    rfl
  · rw [metric?, hrule]
    rfl
  · exact hname.symm
  · show (validMetric rule.metric && validStatus e.status) = true
    rw [h.rules rule (Database.rule?_mem hrule), h.statuses e he, Bool.and_self]

private theorem map_filterMap_joined (s : EventStore F) (events : List (Event F))
    (h : ∀ e ∈ events, ∃ row, s.joined e = some row ∧ row.event = e) :
    (events.filterMap s.joined).map (·.event) = events := by
  induction events with
  | nil => rfl
  | cons e events ih =>
    obtain ⟨row, hrow, hevent⟩ := h e List.mem_cons_self
    rw [List.filterMap_cons_some hrow, List.map_cons, hevent,
      ih fun e he => h e (List.mem_cons_of_mem _ he)]

/-- **A page has the newest events below its bound.** -/
theorem WellFormed.map_selectEvents (h : WellFormed s) :
    (s.selectEvents beforeID limit).map (·.event) =
      (Keyset.backwards Event.id (admits beforeID) s.db.events).take limit.toNat := by
  have hjoin := map_filterMap_joined s s.db.events fun e he => by
    obtain ⟨row, hrow, hevent, _⟩ := h.joined he
    exact ⟨row, hrow, hevent⟩
  rw [selectEvents, List.map_take, Keyset.backwards, List.map_reverse, Keyset.backwards]
  conv_rhs => rw [← hjoin, List.filter_map]
  rfl

/-- If each element has a result, so has the list. -/
theorem mapM_ok {A B E : Type} {f : A → Except E B} {P : A → B → Prop} :
    ∀ {l : List A}, (∀ a ∈ l, ∃ b, f a = .ok b ∧ P a b) →
      ∃ bs, l.mapM f = .ok bs ∧ List.Forall₂ P l bs
  | [], _ => ⟨[], rfl, .nil⟩
  | a :: l, h => by
    obtain ⟨b, hb, hP⟩ := h a List.mem_cons_self
    obtain ⟨bs, hbs, hall⟩ := mapM_ok fun c hc => h c (List.mem_cons_of_mem a hc)
    refine ⟨b :: bs, ?_, .cons hP hall⟩
    rw [List.mapM_cons, hb, hbs]
    rfl

/-- **A listing** shows the newest events below its bound. -/
theorem WellFormed.listEvents (h : WellFormed s) (hbefore : 0 ≤ beforeID)
    (hlimit : 1 ≤ limit ∧ limit ≤ 100) :
    ∃ rows, s.listEvents beforeID limit false false = .ok rows ∧
      List.Forall₂ s.Shows
        ((Keyset.backwards Event.id (admits beforeID) s.db.events).take limit.toNat) rows := by
  have hinput : ¬ (beforeID < 0 ∨ limit < 1 ∨ 100 < limit) := by omega
  -- every selected row is the join of an event
  have hselected : ∀ row ∈ s.selectEvents beforeID limit,
      row.event ∈ s.db.events ∧ s.joined row.event = some row := by
    intro row hrow
    have hmem := List.mem_of_mem_filter (List.mem_reverse.mp (List.mem_of_mem_take hrow))
    obtain ⟨e, he, hjoin⟩ := List.mem_filterMap.mp hmem
    obtain ⟨row', hjoin', hevent, _⟩ := h.joined he
    have hrow' : row' = row := Option.some.inj (hjoin'.symm.trans hjoin)
    rw [← hrow', hevent]
    exact ⟨he, hjoin'⟩
  have hscan : (s.selectEvents beforeID limit).all scannableEvent = true :=
    List.all_eq_true.mpr fun row hrow => by
      obtain ⟨he, hjoin⟩ := hselected row hrow
      obtain ⟨row', hjoin', _, _, _, hscan⟩ := h.joined he
      rwa [Option.some.inj (hjoin.symm.trans hjoin')]
  obtain ⟨rows, hrows, hall⟩ := @mapM_ok _ _ RepositoryError (fun row : ListedEvent F =>
      (s.listAttempts row.event.id false).map fun attempts => { row with attempts })
    (fun row row' => s.Shows row.event row') (s.selectEvents beforeID limit) fun row hrow => by
      obtain ⟨he, hjoin⟩ := hselected row hrow
      obtain ⟨row', hjoin', hevent, hmetric, hname, _⟩ := h.joined he
      have hrow' : row' = row := Option.some.inj (hjoin'.symm.trans hjoin)
      have hid : ¬ row.event.id < 1 := by
        have := h.ids row.event he
        omega
      refine ⟨{ row with attempts := s.attempts.filter (·.eventID == some row.event.id) }, ?_, rfl,
        ?_, ?_, rfl⟩
      · rw [listAttempts, if_neg hid]
        rfl
      · rw [← hrow', hmetric, hevent]
      · rw [← hrow', hname, hevent]
  refine ⟨rows, ?_, ?_⟩
  · rw [EventStore.listEvents, if_neg hinput, if_neg Bool.false_ne_true]
    simp only [hscan, if_true]
    exact hrows
  · rw [← h.map_selectEvents]
    exact List.forall₂_map_left_iff.mpr hall

/-! ## Pages that are followed -/

/-- Pages read one after another, each from below the last event of the one before: the limit of
each, and what happens before the next. An empty page is the last. -/
def followPages (s : EventStore F) (beforeID : Int) : List (Int × List (Action F)) →
    List (ListedEvent F)
  | [] => []
  | (limit, as) :: pages =>
    match s.listEvents beforeID limit false false with
    | .error _ => []
    | .ok rows =>
      rows ++
        match rows.getLast? with
        | none => []
        | some row => followPages (run step s as) row.event.id pages

/-- How many events the pages have room for. -/
def room : List (Int × List (Action F)) → Nat
  | [] => 0
  | (limit, _) :: pages => limit.toNat + room pages

/-- The rows of a page show its events, in their order. -/
theorem Shows.map_event {events : List (Event F)} {rows : List (ListedEvent F)}
    (h : List.Forall₂ s.Shows events rows) : rows.map (·.event) = events := by
  induction h with
  | nil => rfl
  | cons hrow _ ih => rw [List.map_cons, hrow.1, ih]

/-- Each row of a page shows one of its events. -/
theorem Shows.exists_of_mem {events : List (Event F)} {rows : List (ListedEvent F)}
    (h : List.Forall₂ s.Shows events rows) {row : ListedEvent F} (hrow : row ∈ rows) :
    ∃ e ∈ events, s.Shows e row := by
  induction h with
  | nil => exact absurd hrow List.not_mem_nil
  | cons hshows _ ih =>
    rcases List.mem_cons.mp hrow with rfl | hrow
    · exact ⟨_, List.mem_cons_self, hshows⟩
    · obtain ⟨e, he, hshows⟩ := ih hrow
      exact ⟨e, List.mem_cons_of_mem _ he, hshows⟩

/-- Events are numbered in the order in which they were stored. -/
theorem pairwise_events (s : EventStore F) : s.db.events.Pairwise fun e e' => e.id < e'.id :=
  List.pairwise_map.mp s.db.events_ids

/-- **Followed pages are the history as it was at the first of them**, as far as they have room. -/
theorem WellFormed.followPages {pages : List (Int × List (Action F))} (h : WellFormed s)
    (hbefore : 0 ≤ beforeID) (hpages : ∀ page ∈ pages, 1 ≤ page.1 ∧ page.1 ≤ 100) :
    (s.followPages beforeID pages).map (·.event) =
      (Keyset.backwards Event.id (admits beforeID) s.db.events).take (room pages) := by
  induction pages generalizing s beforeID with
  | nil => rfl
  | cons page pages ih =>
    obtain ⟨limit, as⟩ := page
    have hlimit := hpages _ List.mem_cons_self
    obtain ⟨rows, hrows, hshows⟩ := h.listEvents hbefore hlimit
    have hevents := Shows.map_event hshows
    rw [EventStore.followPages, hrows, room]
    dsimp only
    cases hlast : rows.getLast? with
    | none =>
      rw [List.getLast?_eq_none_iff] at hlast
      rw [hlast, List.map_nil] at hevents
      have hempty : Keyset.backwards Event.id (admits beforeID) s.db.events = [] := by
        rcases List.take_eq_nil_iff.mp hevents.symm with hzero | hempty
        · omega
        · exact hempty
      rw [hlast, hempty, List.take_nil]
      rfl
    | some row =>
      obtain ⟨appended, happended⟩ := events_grow s as
      have hdown : ∀ k k', k < k' → admits beforeID k' = true → admits beforeID k = true := by
        intro k k' hlt hk
        simp only [admits, decide_eq_true_eq] at hk ⊢
        omega
      have hlast' : ((Keyset.backwards Event.id (admits beforeID) s.db.events).take
          limit.toNat).getLast? = some row.event := by
        rw [← hevents, List.getLast?_map, hlast]
        rfl
      have hid : 1 ≤ row.event.id := by
        have hmem := List.mem_of_mem_take (List.mem_of_getLast? hlast')
        exact h.ids _ (List.mem_of_mem_filter (List.mem_reverse.mp hmem))
      have hbound : admits row.event.id = fun k => decide (k < row.event.id) := by
        funext k
        have hne : ¬ row.event.id = 0 := by omega
        simp only [admits, hne, false_or]
      have hsorted : (s.db.events ++ appended).Pairwise fun e e' => e.id < e'.id := by
        rw [happended]
        exact pairwise_events _
      have hrest := Keyset.backwards_below hsorted hdown hlast'
      rw [List.map_append, hevents,
        ih (h.run as) (by omega) fun page hpage => hpages page (List.mem_cons_of_mem _ hpage),
        hbound, ← happended, hrest, ← List.take_add]

/-- **Recorded events are history.** Every later listing reports an event as it was recorded, its
metric as long as no update of its rule writes another one, and pages that are followed to the end
list every event once, newest first. -/
theorem events_immutable (h : WellFormed s) {e : Event F} (he : e ∈ s.db.events)
    (as : List (Action F)) :
    (∃ row, (run step s as).listEvents (e.id + 1) 1 false false = .ok [row] ∧ row.event = e ∧
        (Guarded step (KeepsMetric e.ruleID) s as → some row.metric = s.metric? e.ruleID)) ∧
      (∀ beforeID limit rows,
        (run step s as).listEvents beforeID limit false false = .ok rows →
          ∀ row ∈ rows, row.event.id = e.id → row.event = e ∧
            (Guarded step (KeepsMetric e.ruleID) s as → some row.metric = s.metric? e.ruleID)) ∧
      ∀ pages : List (Int × List (Action F)), (∀ page ∈ pages, 1 ≤ page.1 ∧ page.1 ≤ 100) →
        (run step s as).db.events.length ≤ room pages →
          ((run step s as).followPages 0 pages).map (·.event) =
              (run step s as).db.events.reverse ∧
            ((run step s as).db.events.reverse.map Event.id).Pairwise (· > ·) := by
  have hrun := h.run as
  have he' : e ∈ (run step s as).db.events := (events_grow s as).subset he
  have hmetric : ∀ {row : ListedEvent F}, (run step s as).Shows e row →
      Guarded step (KeepsMetric e.ruleID) s as → some row.metric = s.metric? e.ruleID :=
    fun hrow hkeep => hrow.2.1.trans (metric_run hkeep)
  have hunique : ∀ e' ∈ (run step s as).db.events, e'.id = e.id → e' = e := fun e' hmem hid =>
    List.inj_on_of_nodup_map ((run step s as).db.events_ids.imp Int.ne_of_lt) hmem he' hid
  have hid := hrun.ids e he'
  generalize run step s as = s' at hrun he' hmetric hunique
  refine ⟨?_, fun beforeID limit rows hlist row hrow heq => ?_, fun pages hpages hlength => ⟨?_, ?_⟩⟩
  · -- the newest event below the next id
    have hfirst : (Keyset.backwards Event.id (admits (e.id + 1)) s'.db.events).take (1 : Int).toNat =
        [e] := by
      have hsorted : (Keyset.backwards Event.id (admits (e.id + 1)) s'.db.events).Pairwise
          fun e e' => e'.id < e.id := Keyset.pairwise_backwards (pairwise_events s')
      have hmem : ∀ e', e' ∈ Keyset.backwards Event.id (admits (e.id + 1)) s'.db.events ↔
          e' ∈ s'.db.events ∧ e'.id ≤ e.id := by
        intro e'
        rw [Keyset.backwards, List.mem_reverse, List.mem_filter, admits, decide_eq_true_eq]
        refine and_congr_right fun _ => ?_
        omega
      generalize Keyset.backwards Event.id (admits (e.id + 1)) s'.db.events = rows at hsorted hmem
      cases rows with
      | nil => exact absurd ((hmem e).mpr ⟨he', Int.le_refl _⟩) List.not_mem_nil
      | cons first rows =>
        have hfirst := (hmem first).mp List.mem_cons_self
        rcases List.mem_cons.mp ((hmem e).mpr ⟨he', Int.le_refl _⟩) with heq | htail
        · rw [heq]
          rfl
        · have := (List.pairwise_cons.mp hsorted).1 e htail
          omega
    have hbefore : 0 ≤ e.id + 1 := by omega
    obtain ⟨rows, hrows, hshows⟩ := hrun.listEvents hbefore ⟨Int.le_refl 1, by decide⟩
    rw [hfirst] at hshows
    cases hshows with
    | cons hrow hnil =>
      cases hnil
      exact ⟨_, hrows, hrow.1, hmetric hrow⟩
  · have hinput : ¬ (beforeID < 0 ∨ limit < 1 ∨ 100 < limit) := fun hinput => by
      rw [EventStore.listEvents, if_pos hinput] at hlist
      cases hlist
    have hbefore : 0 ≤ beforeID := by omega
    have hlimit : 1 ≤ limit ∧ limit ≤ 100 := by omega
    obtain ⟨rows', hrows', hshows⟩ := hrun.listEvents hbefore hlimit
    rw [hrows'] at hlist
    cases hlist
    obtain ⟨e', hmem, hrow'⟩ := Shows.exists_of_mem hshows hrow
    have hevents := List.mem_of_mem_filter (List.mem_reverse.mp (List.mem_of_mem_take hmem))
    have heq' : e' = e := hunique e' hevents (by rw [← hrow'.1, heq])
    rw [heq'] at hrow'
    exact ⟨hrow'.1, hmetric hrow'⟩
  · rw [hrun.followPages (Int.le_refl 0) hpages]
    have hall : Keyset.backwards Event.id (admits 0) s'.db.events = s'.db.events.reverse := by
      have hfilter : s'.db.events.filter (fun e => admits 0 e.id) = s'.db.events :=
        List.filter_eq_self.mpr fun _ _ => rfl
      rw [Keyset.backwards, hfilter]
    rw [hall]
    exact List.take_of_length_le (by rwa [List.length_reverse])
  · rw [List.map_reverse, List.pairwise_reverse]
    exact s'.db.events_ids

end Listing

/-- A rule of a server, and an event of it. -/
def watchRule : Rule Exact :=
  { id := 1, serverID := 1, metric := .cpuUsage, operator := .greaterThan, threshold := .fin 80
    durationSeconds := 300, repeatSeconds := 0, enabled := true, createdAt := ⟨0⟩
    updatedAt := ⟨0⟩ }

def watchEvent : Event Exact :=
  { id := 1, ruleID := 1, serverID := 1, status := .firing, currentValue := some (.fin 95)
    threshold := some (.fin 80), startedAt := ⟨0⟩, endedAt := none, createdAt := ⟨0⟩ }

def watched : EventStore Exact :=
  { db := (Database.empty.insertRule watchRule).insertEvent watchEvent
    servers := AList.singleton 1 "web", attempts := [], nextAttemptID := 1 }

/-- A server with one rule, and the event of that rule. -/
theorem wellFormed_watched : watched.WellFormed where
  rules := by decide +kernel
  statuses := by decide +kernel
  ids := by decide +kernel
  ruleKeys := by decide +kernel
  serverKeys := by decide +kernel
  next := by decide +kernel

/-- The threshold of the rule is raised, and an attempt recorded. -/
def retuned : List (Action Exact) :=
  [.updateRule ⟨1⟩ { watchRule with threshold := .fin 90 } false false,
    .recordAttempt ⟨2⟩ ⟨0, some 1, false, 1, some 200, "", ⟨2⟩⟩ false]

/-- The rule is given another metric, and its event is listed under that one. -/
theorem retuned_reported :
    ∃ row, (run step watched retuned).listEvents 2 1 false false = .ok [row] ∧
      row.event = watchEvent ∧ some row.metric = some .cpuUsage := by
  have hkeep : Guarded step (KeepsMetric 1) watched retuned := by
    refine ⟨fun _ _ _ _ row hrow => ?_, trivial, trivial⟩
    cases hrow
    rfl
  obtain ⟨row, hlist, hevent, hmetric⟩ :=
    (events_immutable wellFormed_watched (List.mem_singleton_self watchEvent) retuned).1
  exact ⟨row, hlist, hevent, hmetric hkeep⟩

/-- The metric of the rule is changed, and with it that of the event recorded before. -/
theorem relabelled_metric :
    watched.WellFormed ∧ watchEvent ∈ watched.db.events ∧ watched.metric? 1 = some .cpuUsage ∧
      ((run step watched [.updateRule ⟨1⟩ { watchRule with metric := .memoryUsage } false false]
        ).listEvents 0 50 false false).map (·.map fun row => (row.event.id, row.metric)) =
          .ok [(1, .memoryUsage)] :=
  ⟨wellFormed_watched, by decide +kernel, by decide +kernel, by decide +kernel⟩

end EventStore

end TinyProbe.Alerting
