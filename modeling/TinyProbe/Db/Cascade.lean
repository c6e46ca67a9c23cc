import TinyProbe.Db.Tables

/-!
# Deleted for good

What `DELETE FROM servers` and `DELETE FROM alert_rules` take with them. The schema says it by its
references; `Row.ofServer` and `Row.ofRule` say it in the program's terms, and agree with what the
cascade leaves (`deletions_rows`). An event is of the server it was raised
for, and of the server its rule watches now: `UpdateRule` may move a rule, so the two can differ.

A deleted server or rule is deleted for good (`deleted_for_good`): its id is not given out again,
and no later row refers to it, not even by way of others.
-/

namespace TinyProbe.Db

open Alerting Run

variable {D F : Type}

/-- A rule of the id watches the server. -/
def watches (rows : List (Row D F)) (ruleID serverID : Int) : Bool := rows.any fun
  | .rule rule => rule.id = ruleID ∧ rule.serverID = serverID
  | _ => false

/-- The event was raised for the server, or by a rule that watches it. -/
def eventOfServer (rows : List (Row D F)) (id : Int) (event : Event F) : Bool :=
  event.serverID = id ∨ watches rows event.ruleID id

/-- An attempt delivers an event that meets `p`. -/
def delivers (rows : List (Row D F)) (p : Event F → Bool) (attempt : Attempt) : Bool :=
  rows.any fun
    | .event event => attempt.eventID = some event.id ∧ p event
    | _ => false

/-- What a server's deletion takes with it. -/
def Row.ofServer (rows : List (Row D F)) (id : Int) : Row D F → Bool
  | .server row => row.id = id
  | .minute serverID _ _ _ => serverID = id
  | .rule row => row.serverID = id
  | .state row => watches rows row.ruleID id
  | .event row => eventOfServer rows id row
  | .attempt row => delivers rows (eventOfServer rows id) row
  | .admin _ _ _ | .session _ _ _ _ | .webhook _ => false

/-- What a rule's deletion takes with it. -/
def Row.ofRule (rows : List (Row D F)) (id : Int) : Row D F → Bool
  | .rule row => row.id = id
  | .state row => row.ruleID = id
  | .event row => row.ruleID = id
  | .attempt row => delivers rows (·.ruleID = id) row
  | .admin _ _ _ | .session _ _ _ _ | .server _ | .minute _ _ _ _ | .webhook _ => false

/-- The levels of the schema: a row refers to rows of lower ones. -/
def Row.rank : Row D F → Nat
  | .admin _ _ _ | .server _ | .webhook _ => 0
  | .session _ _ _ _ | .minute _ _ _ _ | .rule _ => 1
  | .state _ => 2
  | .event _ => 2
  | .attempt _ => 3

/-- The row of a key, when there is one, meets `P`. -/
def Leads (rows : List (Row D F)) (P : Row D F → Prop) (k : Key D) : Prop :=
  ∃ row ∈ rows, row.key = k ∧ P row

/-! ## The rows of a table -/

def Row.server? : Row D F → Option (ServerRow D)
  | .server row => some row
  | _ => none

def Row.rule? : Row D F → Option (Rule F)
  | .rule row => some row
  | _ => none

def Row.state? : Row D F → Option (State F)
  | .state row => some row
  | _ => none

def Row.event? : Row D F → Option (Event F)
  | .event row => some row
  | _ => none

def Row.attempt? : Row D F → Option Attempt
  | .attempt row => some row
  | _ => none

/-- The rows of a table whose key is an id: how they are made, and how they are taken out again. -/
structure Kind (D F B : Type) where
  row : B → Row D F
  select : Row D F → Option B
  id : B → Int
  key : Int → Key D
  select_iff : ∀ r b, select r = some b ↔ r = row b
  key_iff : ∀ r i, r.key = key i ↔ ∃ b, r = row b ∧ id b = i

namespace Kind

/-- `servers`. -/
def server : Kind D F (ServerRow D) where
  row := .server
  select := Row.server?
  id := ServerRow.id
  key := .server
  select_iff r b := by cases r <;> simp [Row.server?]
  key_iff r i := by cases r <;> simp [Row.key]

/-- `alert_rules`. -/
def rule : Kind D F (Rule F) where
  row := .rule
  select := Row.rule?
  id := Rule.id
  key := .rule
  select_iff r b := by cases r <;> simp [Row.rule?]
  key_iff r i := by cases r <;> simp [Row.key]

/-- `alert_states`. -/
def state : Kind D F (State F) where
  row := .state
  select := Row.state?
  id := State.ruleID
  key := .state
  select_iff r b := by cases r <;> simp [Row.state?]
  key_iff r i := by cases r <;> simp [Row.key]

/-- `alert_events`. -/
def event : Kind D F (Event F) where
  row := .event
  select := Row.event?
  id := Event.id
  key := .event
  select_iff r b := by cases r <;> simp [Row.event?]
  key_iff r i := by cases r <;> simp [Row.key]

section Laws

variable {B : Type} (k : Kind D F B) {rows : List (Row D F)}

/-- What is selected from a list are the rows made by the constructor. -/
theorem mem {b : B} : b ∈ rows.filterMap k.select ↔ k.row b ∈ rows := by
  rw [List.mem_filterMap]
  constructor
  · rintro ⟨r, hr, h⟩
    exact (k.select_iff r b).mp h ▸ hr
  · exact fun h => ⟨_, h, (k.select_iff _ b).mpr rfl⟩

/-- A row of a table has the key of its id. -/
theorem key_row (b : B) : (k.row b).key = k.key (k.id b) := (k.key_iff _ _).mpr ⟨b, rfl, rfl⟩

/-- What is selected as a row of the table has the key of its id. -/
theorem key_of_select {r : Row D F} {b : B} (h : k.select r = some b) :
    r.key = k.key (k.id b) := by
  rw [(k.select_iff r b).mp h, key_row]

/-- A key of the table leads to the row that has it. -/
theorem leads {P : Row D F → Prop} {i : Int} :
    Leads rows P (k.key i) ↔ ∃ b, k.row b ∈ rows ∧ k.id b = i ∧ P (k.row b) := by
  constructor
  · rintro ⟨parent, hparent, hkey, hP⟩
    obtain ⟨b, rfl, hid⟩ := (k.key_iff parent i).mp hkey
    exact ⟨b, hparent, hid, hP⟩
  · rintro ⟨b, hb, rfl, hP⟩
    exact ⟨_, hb, k.key_row b, hP⟩

variable [DecidableEq D]

/-- The list has a key of the table exactly when it has a row with that id. -/
theorem has_iff {i : Int} :
    (schema D F).has rows (k.key i) = true ↔ ∃ b ∈ rows.filterMap k.select, k.id b = i := by
  rw [Schema.has_iff]
  constructor
  · rintro ⟨r, hr, hkey⟩
    obtain ⟨b, rfl, hid⟩ := (k.key_iff r i).mp hkey
    exact ⟨b, k.mem.mpr hr, hid⟩
  · rintro ⟨b, hb, rfl⟩
    exact ⟨_, k.mem.mp hb, k.key_row b⟩

end Laws

end Kind

namespace Tables

section Levels

variable {rows : List (Row D F)} {row parent : Row D F} {id : Int}

/-- A reference leads to a lower level, so references do not go in circles. -/
theorem rank_lt (h : parent.key ∈ row.refs) : parent.rank < row.rank := by
  cases row <;> cases parent <;>
    simp [Row.refs, Row.key, Row.rank] at h ⊢

/-- A rule watches a server when its row says so. -/
theorem watches_iff {ruleID serverID : Int} : watches rows ruleID serverID = true ↔
    ∃ rule : Rule F, .rule rule ∈ rows ∧ rule.id = ruleID ∧ rule.serverID = serverID := by
  simp only [watches, List.any_eq_true]
  constructor
  · rintro ⟨row, hrow, h⟩
    cases row with
    | rule rule => exact ⟨rule, hrow, of_decide_eq_true h⟩
    | _ => cases h
  · rintro ⟨rule, hrule, h⟩
    exact ⟨.rule rule, hrule, decide_eq_true h⟩

/-- An attempt delivers an event when it refers to its row. -/
theorem delivers_iff {p : Event F → Bool} {attempt : Attempt} : delivers rows p attempt = true ↔
    ∃ event : Event F, .event event ∈ rows ∧ attempt.eventID = some event.id ∧ p event = true := by
  simp only [delivers, List.any_eq_true]
  constructor
  · rintro ⟨row, hrow, h⟩
    cases row with
    | event event => exact ⟨event, hrow, of_decide_eq_true h⟩
    | _ => cases h
  · rintro ⟨event, hevent, h⟩
    exact ⟨.event event, hevent, decide_eq_true h⟩

private theorem eventOfServer_iff {event : Event F} : eventOfServer rows id event = true ↔
    event.serverID = id ∨ watches rows event.ruleID id = true := by
  rw [eventOfServer, decide_eq_true_eq]

/-- The rows a row refers to, reference by reference. -/
theorem parents_iff {P : Row D F → Prop} :
    (∃ parent ∈ rows, parent.key ∈ row.refs ∧ P parent) ↔
      ∃ k ∈ row.refs, Leads rows P k :=
  ⟨fun ⟨parent, hparent, hkey, hP⟩ => ⟨_, hkey, parent, hparent, rfl, hP⟩,
    fun ⟨_, hk, parent, hparent, hkey, hP⟩ => ⟨parent, hparent, hkey ▸ hk, hP⟩⟩

/-- What has the key of a rule is its row. -/
theorem key_rule {ruleID : Int} (hkey : row.key = .rule ruleID) :
    ∃ rule, row = .rule rule ∧ rule.id = ruleID := (Kind.rule.key_iff row ruleID).mp hkey

/-- What has the key of a server is its row. -/
theorem key_server {serverID : Int} (hkey : row.key = .server serverID) :
    ∃ server, row = .server server ∧ server.id = serverID :=
  (Kind.server.key_iff row serverID).mp hkey

/-- The key of an event leads to its row. -/
theorem leads_event {P : Row D F → Prop} {eventID : Int} : Leads rows P (.event eventID) ↔
    ∃ event : Event F, .event event ∈ rows ∧ event.id = eventID ∧ P (.event event) :=
  Kind.event.leads

/-- The key of a rule leads to its row. -/
theorem leads_rule {P : Row D F → Prop} {ruleID : Int} : Leads rows P (.rule ruleID) ↔
    ∃ rule : Rule F, .rule rule ∈ rows ∧ rule.id = ruleID ∧ P (.rule rule) :=
  Kind.rule.leads

/-- An attempt delivers an event with a property when its reference leads to such a row. -/
theorem leads_attempt {p : Event F → Bool} {P : Row D F → Prop} {attempt : Attempt}
    (hP : ∀ event : Event F, P (.event event) ↔ p event = true) :
    delivers rows p attempt = true ↔
      ∃ k ∈ (Row.attempt attempt : Row D F).refs, Leads rows P k := by
  rw [delivers_iff]
  cases h : attempt.eventID with
  | none => simp [Row.refs, h]
  | some eventID =>
    simp only [Row.refs, h, Option.toList_some, List.map_cons, List.map_nil, List.mem_singleton,
      exists_eq_left, leads_event, hP, Option.some.injEq]
    simp only [eq_comm]

/-- The key of the administrator leads to no row but the administrator. -/
private theorem not_leads_admin {P : Row D F → Prop} {adminID : Int}
    (hP : ∀ username passwordHash createdAt, ¬ P (.admin username passwordHash createdAt)) :
    ¬ Leads rows P (.admin adminID) := by
  rintro ⟨row, _, hkey, h⟩
  cases row with
  | admin username passwordHash createdAt => exact hP _ _ _ h
  | _ => cases hkey

variable [DecidableEq D]

/-- The row a reference leads to. -/
theorem parent_of_ref {k : Key D} (hintact : (schema D F).Intact rows) (hrow : row ∈ rows)
    (hk : k ∈ row.refs) : ∃ parent ∈ rows, parent.key = k :=
  Schema.resolves_iff.mp (hintact row hrow) k hk

/-- A row goes with a server when it is its row or refers to one that goes. -/
theorem ofServer_iff (hintact : (schema D F).Intact rows) (hrow : row ∈ rows) :
    row.ofServer rows id = true ↔ decide (row.key = .server id) = true ∨
      ∃ parent ∈ rows, parent.key ∈ row.refs ∧ parent.ofServer rows id = true := by
  have hserver : ∀ serverID, .server serverID ∈ row.refs →
      (Leads rows (·.ofServer rows id = true) (.server serverID) ↔ serverID = id) := by
    intro serverID href
    constructor
    · rintro ⟨parent, _, hkey, hof⟩
      obtain ⟨server, rfl, rfl⟩ := key_server hkey
      exact of_decide_eq_true hof
    · rintro rfl
      obtain ⟨parent, hparent, hkey⟩ := parent_of_ref hintact hrow href
      obtain ⟨server, rfl, hid⟩ := key_server hkey
      exact ⟨_, hparent, hkey, decide_eq_true hid⟩
  have hrule : ∀ ruleID, Leads rows (·.ofServer rows id = true) (.rule ruleID) ↔
      watches rows ruleID id = true := fun ruleID => by
    simp only [leads_rule, watches_iff, Row.ofServer, decide_eq_true_eq]
  rw [parents_iff, decide_eq_true_eq]
  generalize hleads : Leads rows (·.ofServer rows id = true) = leads at *
  cases row with
  | admin username passwordHash createdAt => simp [Row.ofServer, Row.key, Row.refs]
  | webhook config => simp [Row.ofServer, Row.key, Row.refs]
  | server row => simp [Row.ofServer, Row.key, Row.refs]
  | session tokenHash adminID expiresAt createdAt =>
    have hadmin : ¬ leads (.admin adminID) := hleads ▸ not_leads_admin fun _ _ _ => Bool.false_ne_true
    simp [Row.ofServer, Row.key, Row.refs, hadmin]
  | minute serverID minuteUnix payload createdAt =>
    simp [Row.ofServer, Row.key, Row.refs, hserver _ (List.mem_singleton_self _)]
  | rule row => simp [Row.ofServer, Row.key, Row.refs, hserver _ (List.mem_singleton_self _)]
  | state row => simp [Row.ofServer, Row.key, Row.refs, hrule]
  | event row =>
    have hserver := hserver row.serverID (List.mem_cons_of_mem _ (List.mem_singleton_self _))
    simp [Row.ofServer, eventOfServer_iff, Row.key, Row.refs, hrule, hserver, or_comm]
  | attempt row =>
    simp only [Row.key, reduceCtorEq, false_or, ← hleads]
    exact leads_attempt fun event => Iff.rfl

/-- A row goes with a rule when it is its row or refers to one that goes. -/
theorem ofRule_iff (hintact : (schema D F).Intact rows) (hrow : row ∈ rows) :
    row.ofRule rows id = true ↔ decide (row.key = .rule id) = true ∨
      ∃ parent ∈ rows, parent.key ∈ row.refs ∧ parent.ofRule rows id = true := by
  have hserver : ∀ serverID, ¬ Leads rows (·.ofRule rows id = true) (.server serverID) := by
    rintro serverID ⟨parent, _, hkey, hof⟩
    obtain ⟨server, rfl, rfl⟩ := key_server hkey
    cases hof
  have hrule : ∀ ruleID, .rule ruleID ∈ row.refs →
      (Leads rows (·.ofRule rows id = true) (.rule ruleID) ↔ ruleID = id) := by
    intro ruleID href
    simp only [leads_rule, Row.ofRule, decide_eq_true_eq]
    constructor
    · rintro ⟨rule, _, rfl, hid⟩
      exact hid
    · rintro rfl
      obtain ⟨parent, hparent, hkey⟩ := parent_of_ref hintact hrow href
      obtain ⟨rule, rfl, hid⟩ := key_rule hkey
      exact ⟨rule, hparent, hid, hid⟩
  rw [parents_iff, decide_eq_true_eq]
  generalize hleads : Leads rows (·.ofRule rows id = true) = leads at *
  cases row with
  | admin username passwordHash createdAt => simp [Row.ofRule, Row.key, Row.refs]
  | webhook config => simp [Row.ofRule, Row.key, Row.refs]
  | server row => simp [Row.ofRule, Row.key, Row.refs]
  | session tokenHash adminID expiresAt createdAt =>
    have hadmin : ¬ leads (.admin adminID) := hleads ▸ not_leads_admin fun _ _ _ => Bool.false_ne_true
    simp [Row.ofRule, Row.key, Row.refs, hadmin]
  | minute serverID minuteUnix payload createdAt => simp [Row.ofRule, Row.key, Row.refs, hserver]
  | rule row => simp [Row.ofRule, Row.key, Row.refs, hserver]
  | state row => simp [Row.ofRule, Row.key, Row.refs, hrule _ (List.mem_singleton_self _)]
  | event row =>
    simp [Row.ofRule, Row.key, Row.refs, hserver, hrule _ List.mem_cons_self]
  | attempt row =>
    simp only [Row.key, reduceCtorEq, false_or, ← hleads]
    exact leads_attempt fun event => Iff.rfl

end Levels

section Deletions

variable [DecidableEq D] {t t' : Tables D F} {row : Row D F}

/-- What is left after a server was deleted is what did not go with it. -/
theorem mem_deleteServer (h : t.Sound) (id : Int) :
    row ∈ (t.delete fun row => row.key = .server id).rows ↔
      row ∈ t.rows ∧ row.ofServer t.rows id = false := by
  rw [← Bool.not_eq_true]
  have hiff := fun row (hrow : row ∈ t.rows) => @ofServer_iff D F t.rows row id _ h.intact hrow
  exact Schema.mem_delete_of_rank (S := schema D F) Row.rank (fun _ _ _ _ hkey => rank_lt hkey) hiff

/-- What is left after a rule was deleted is what did not go with it. -/
theorem mem_deleteRule (h : t.Sound) (id : Int) :
    row ∈ (t.delete fun row => row.key = .rule id).rows ↔
      row ∈ t.rows ∧ row.ofRule t.rows id = false := by
  rw [← Bool.not_eq_true]
  have hiff := fun row (hrow : row ∈ t.rows) => @ofRule_iff D F t.rows row id _ h.intact hrow
  exact Schema.mem_delete_of_rank (S := schema D F) Row.rank (fun _ _ _ _ hkey => rank_lt hkey) hiff

/-- **What the two deletions leave**, in every database the services lead to. A server takes with it
its minutes, its rules with their states, every event that was raised for it (also by a rule that
watches another server by now) or by a rule that watches it, and the attempts of those events; a
rule takes its state, its events and their attempts. -/
theorem deletions_rows (calls : List (Call D F)) (id : Int) (row : Row D F) :
    (row ∈ ((run step empty calls).step ⟨[.deleteServer id], false⟩).rows ↔
      row ∈ (run step empty calls).rows ∧
        row.ofServer (run step empty calls).rows id = false) ∧
    (row ∈ ((run step empty calls).step ⟨[.deleteRule id], false⟩).rows ↔
      row ∈ (run step empty calls).rows ∧
        row.ofRule (run step empty calls).rows id = false) :=
  ⟨mem_deleteServer (sound_after calls) id, mem_deleteRule (sound_after calls) id⟩

/-! ## Deleted ids -/

variable {table : Serial} {id : Int}

/-- **A key that is gone stays gone.** -/
theorem Gone.change (hgone : t.Gone table id) (hchange : Change t t') : t'.Gone table id := by
  cases hchange with
  | @inserted row hplain _ _ =>
    refine ⟨hgone.1, List.forall_mem_append.mpr ⟨hgone.2, fun row' hrow' => ?_⟩⟩
    rw [List.mem_singleton.mp hrow']
    exact hplain table id
  | @numbered table' row hkey _ _ =>
    have hseq := hgone.1
    refine ⟨?_, List.forall_mem_append.mpr ⟨hgone.2, fun row' hrow' => ?_⟩⟩
    · show id ≤ Function.update t.sequence table' (t.sequence table' + 1) table
      rw [Function.update_apply]
      split
      next heq => rw [← heq]; omega
      next => exact hseq
    · rw [List.mem_singleton.mp hrow', hkey]
      intro heq
      obtain ⟨rfl, rfl⟩ := Serial.key_inj heq
      omega
  | @replaced rows k f hkey _ hrun =>
    obtain ⟨rfl, -⟩ := Schema.replace_eq_some.mp hrun
    refine ⟨hgone.1, fun row' hrow' => ?_⟩
    obtain ⟨old, hold, rfl⟩ := List.mem_map.mp hrow'
    have := hgone.2 old hold
    split
    next => rw [hkey]; exact this
    next => exact this
  | deleted p =>
    exact ⟨hgone.1, fun row' hrow' => hgone.2 row' ((Schema.delete_sublist _ _).subset hrow')⟩

/-- A key that is gone stays gone in every run. -/
theorem Gone.run (hgone : t.Gone table id) (calls : List (Call D F)) :
    (run step t calls).Gone table id :=
  run_invariant (fun (t : Tables D F) call (h : t.Gone table id) =>
    step_invariant (fun _ _ hchange h => Gone.change h hchange) h call) hgone calls

/-- The tables stay sound in every run. -/
theorem Sound.run (h : t.Sound) (calls : List (Call D F)) : (run step t calls).Sound :=
  run_invariant (fun (t : Tables D F) call (h : t.Sound) =>
    step_invariant (fun _ _ hchange h => Sound.change h hchange) h call) h calls

/-- Nothing goes with a server that is not there. -/
theorem Gone.ofServer (hgone : t.Gone .servers id) (h : t.Sound) :
    ∀ row ∈ t.rows, row.ofServer t.rows id = false := by
  have hnone : (t.delete fun row => row.key = .server id).rows = t.rows :=
    Schema.delete_none fun row hrow => decide_eq_false (hgone.2 row hrow)
  intro row hrow
  rw [← hnone, mem_deleteServer h] at hrow
  exact hrow.2

/-- Of a rule that is gone no row is left, neither its own nor one of its state, events or attempts.
-/
theorem Gone.ofRule (hgone : t.Gone .rules id) (h : t.Sound) :
    ∀ row ∈ t.rows, row.ofRule t.rows id = false := by
  have hnone : (t.delete fun row => row.key = .rule id).rows = t.rows :=
    Schema.delete_none fun row hrow => decide_eq_false (hgone.2 row hrow)
  intro row hrow
  rw [← hnone, mem_deleteRule h] at hrow
  exact hrow.2

/-- A row that was deleted under its `AUTOINCREMENT` id is gone. -/
theorem gone_delete (hrow : row ∈ t.rows) (h : t.Sound) (hkey : row.key = Serial.key table id) :
    (t.delete fun row => row.key = Serial.key table id).Gone table id := by
  refine ⟨(h.given row hrow table id hkey).2, fun row' hrow' hkey' => ?_⟩
  have := (Schema.mem_delete.mp hrow').2.1
  rw [decide_eq_false_iff_not] at this
  exact this hkey'

/-- Nothing is of a deleted server, whatever the services do before and after. -/
theorem server_never_again (before after : List (Call D F)) (id : Int)
    (hserver : ∃ row ∈ (run step empty before).rows, row.key = .server id) :
    ∀ row ∈ (run step empty (before ++ ⟨[.deleteServer id], false⟩ :: after)).rows,
      row.ofServer (run step empty (before ++ ⟨[.deleteServer id], false⟩ :: after)).rows id =
        false := by
  obtain ⟨row, hrow, hkey⟩ := hserver
  have hsound := sound_after before
  have hgone := @gone_delete D F _ _ _ .servers _ hrow hsound hkey
  rw [run_append, run_cons]
  exact (hgone.run after).ofServer ((hsound.change (.deleted _)).run after)

/-- Nothing is of a deleted rule. -/
theorem rule_never_again (before after : List (Call D F)) (id : Int)
    (hrule : ∃ row ∈ (run step empty before).rows, row.key = .rule id) :
    ∀ row ∈ (run step empty (before ++ ⟨[.deleteRule id], false⟩ :: after)).rows,
      row.ofRule (run step empty (before ++ ⟨[.deleteRule id], false⟩ :: after)).rows id =
        false := by
  obtain ⟨row, hrow, hkey⟩ := hrule
  have hsound := sound_after before
  have hgone := @gone_delete D F _ _ _ .rules _ hrow hsound hkey
  rw [run_append, run_cons]
  exact (hgone.run after).ofRule ((hsound.change (.deleted _)).run after)

/-- **Keys, references, tokens and ids in every run**: they are sound, and an id that is not among
those of an earlier state is greater than all that had been given there. -/
theorem integrity_run (before after : List (Call D F)) :
    Sound (run step empty (before ++ after)) ∧
      ∀ row ∈ (run step empty (before ++ after)).rows, ∀ table id, row.key = Serial.key table id →
        row.key ∈ (run step empty before).rows.map Row.key ∨
          (run step empty before).sequence table < id := by
  refine ⟨sound_after _, fun row hrow table id hkey => ?_⟩
  by_contra hnew
  obtain ⟨hkeys, hid⟩ := not_or.mp hnew
  have hgone : (run step empty before).Gone table id :=
    ⟨Int.not_lt.mp hid, fun old hold hold' =>
      hkeys (List.mem_map.mpr ⟨old, hold, hold'.trans hkey.symm⟩)⟩
  have hlater := hgone.run after
  rw [← run_append] at hlater
  exact hlater.2 row hrow hkey

/-- **Deleted for good**: a server or a rule that is deleted is not there again, nor anything that
goes with it, whatever the services do before and after. -/
theorem deleted_for_good (before after : List (Call D F)) (id : Int) :
    ((∃ row ∈ (run step empty before).rows, row.key = .server id) →
      ∀ row ∈ (run step empty (before ++ ⟨[.deleteServer id], false⟩ :: after)).rows,
        row.ofServer (run step empty (before ++ ⟨[.deleteServer id], false⟩ :: after)).rows id =
          false) ∧
    ((∃ row ∈ (run step empty before).rows, row.key = .rule id) →
      ∀ row ∈ (run step empty (before ++ ⟨[.deleteRule id], false⟩ :: after)).rows,
        row.ofRule (run step empty (before ++ ⟨[.deleteRule id], false⟩ :: after)).rows id =
          false) :=
  ⟨server_never_again before after id, rule_never_again before after id⟩

end Deletions

/-- Two servers and a rule on the first. -/
def twoServers : List (Call Nat Nat) :=
  [⟨[.insertServer "web" 7 (.ofUnix 0)], false⟩, ⟨[.insertServer "db" 8 (.ofUnix 0)], false⟩,
    ⟨[.insertRule { id := 0, serverID := 1, metric := .cpuUsage, operator := .greaterThan
                    threshold := 90, durationSeconds := 0, repeatSeconds := 0, enabled := true
                    createdAt := .zero, updatedAt := .zero } (.ofUnix 1)], false⟩]

/-- The first server or its rule is deleted, then another server is registered. -/
theorem twoServers_deleted :
    (∀ row ∈ (run step empty (twoServers ++ ⟨[.deleteServer 1], false⟩ ::
        [⟨[.insertServer "new" 9 (.ofUnix 2)], false⟩])).rows,
      row.ofServer (run step empty (twoServers ++ ⟨[.deleteServer 1], false⟩ ::
        [⟨[.insertServer "new" 9 (.ofUnix 2)], false⟩])).rows 1 = false) ∧
    (∀ row ∈ (run step empty (twoServers ++ ⟨[.deleteRule 1], false⟩ ::
        [⟨[.insertServer "new" 9 (.ofUnix 2)], false⟩])).rows,
      row.ofRule (run step empty (twoServers ++ ⟨[.deleteRule 1], false⟩ ::
        [⟨[.insertServer "new" 9 (.ofUnix 2)], false⟩])).rows 1 = false) :=
  have h := deleted_for_good twoServers [⟨[.insertServer "new" 9 (.ofUnix 2)], false⟩] 1
  ⟨h.1 (by decide), h.2 (by decide)⟩

end Tables

end TinyProbe.Db
