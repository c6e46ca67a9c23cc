import TinyProbe.Lib.References
import TinyProbe.Lib.Run
import TinyProbe.Alerting.Evaluator
import TinyProbe.Alerting.Events
import TinyProbe.Auth.Sessions

/-!
# The tables

The nine tables of `migrations/` as one list of rows, with `PRAGMA foreign_keys=ON`, and the
statements the services make on them. `Tables.exec` runs one of them: it is refused when it breaks a
key, a foreign key or a `UNIQUE`, and a deletion takes the rows with it that refer to the deleted
ones. A call of a service is a transaction of statements; it has all of its effects or none.

One connection is open (`SetMaxOpenConns(1)`), so transactions come one after the other. A run is
any sequence of them, and any of them may fail.

`Tables.exec_change` says once what a statement can do. From it, every run keeps the keys, the
references, and the ids of `AUTOINCREMENT` in the order in which they were given (`sound_after`).
-/

namespace TinyProbe.Db

open Alerting Run

/-- The tables whose id is `AUTOINCREMENT`. -/
inductive Serial where
  | servers
  | rules
  | events
  | attempts
deriving DecidableEq

/-- A row of `servers`. -/
structure ServerRow (D : Type) where
  id : Int
  name : String
  tokenHash : D
  enabled : Bool
  agentVersion : String
  createdAt : Time
  updatedAt : Time
deriving DecidableEq

/-- A row of one of the tables. Those of `admins` and `webhook_configs` have the id 1. -/
inductive Row (D F : Type) where
  | admin (username passwordHash : String) (createdAt : Time)
  | session (tokenHash : D) (adminID : Int) (expiresAt createdAt : Time)
  | server (row : ServerRow D)
  | minute (serverID minuteUnix : Int) (payload : String) (createdAt : Time)
  | webhook (config : WebhookConfig)
  | rule (row : Rule F)
  | state (row : State F)
  | event (row : Event F)
  | attempt (row : Attempt)
deriving DecidableEq

/-- The primary keys. -/
inductive Key (D : Type) where
  | admin (id : Int)
  | session (tokenHash : D)
  | server (id : Int)
  | minute (serverID minuteUnix : Int)
  | webhook
  | rule (id : Int)
  | state (ruleID : Int)
  | event (id : Int)
  | attempt (id : Int)
deriving DecidableEq

variable {D F : Type}

/-- The key of an id given by `AUTOINCREMENT`. -/
def Serial.key : Serial → Int → Key D
  | .servers, id => .server id
  | .rules, id => .rule id
  | .events, id => .event id
  | .attempts, id => .attempt id

def Row.key : Row D F → Key D
  | .admin _ _ _ => .admin 1
  | .session tokenHash _ _ _ => .session tokenHash
  | .server row => .server row.id
  | .minute serverID minuteUnix _ _ => .minute serverID minuteUnix
  | .webhook _ => .webhook
  | .rule row => .rule row.id
  | .state row => .state row.ruleID
  | .event row => .event row.id
  | .attempt row => .attempt row.id

/-- The columns with `REFERENCES`. `event_id` of an attempt may be `NULL`. -/
def Row.refs : Row D F → List (Key D)
  | .session _ adminID _ _ => [.admin adminID]
  | .minute serverID _ _ _ => [.server serverID]
  | .rule row => [.server row.serverID]
  | .state row => [.rule row.ruleID]
  | .event row => [.rule row.ruleID, .server row.serverID]
  | .attempt row => row.eventID.toList.map .event
  | .admin _ _ _ | .server _ | .webhook _ => []

def schema (D F : Type) : Schema (Row D F) (Key D) := { key := Row.key, refs := Row.refs }

/-- `token_hash`, the other column of `servers` that is `UNIQUE`. -/
def Row.tokenHash? : Row D F → Option D
  | .server row => some row.tokenHash
  | _ => none

/-- The rows, and the last ids that `sqlite_sequence` has. -/
structure Tables (D F : Type) where
  rows : List (Row D F)
  sequence : Serial → Int

/-- The statements of the services. -/
inductive Statement (D F : Type) where
  /-- `CreateAdmin` -/
  | insertAdmin (username passwordHash : String) (now : Time)
  /-- `Login` -/
  | insertSession (tokenHash : D) (adminID : Int) (expiresAt now : Time)
  /-- `Logout` -/
  | deleteSession (tokenHash : D)
  /-- `servers.Service.Create` -/
  | insertServer (name : String) (tokenHash : D) (now : Time)
  /-- `servers.Service.Update` -/
  | updateServer (id : Int) (name : Option String) (enabled : Option Bool) (now : Time)
  /-- `RotateTokenWithServer` -/
  | setToken (id : Int) (tokenHash : D) (now : Time)
  /-- `UpdateAgentVersion` -/
  | setAgentVersion (id : Int) (version : String)
  /-- `servers.Service.Delete` -/
  | deleteServer (id : Int)
  /-- `UpsertMinute` -/
  | upsertMinute (serverID minuteUnix : Int) (payload : String) (now : Time)
  /-- `DeleteBefore` -/
  | deleteMinutesBefore (cutoffUnix : Int)
  /-- `UpsertWebhook` -/
  | upsertWebhook (config : WebhookConfig) (now : Time)
  /-- `CreateRule` -/
  | insertRule (rule : Rule F) (now : Time)
  /-- `UpdateRule` -/
  | updateRule (rule : Rule F) (now : Time)
  /-- `DeleteRule` -/
  | deleteRule (id : Int)
  /-- The first statement of `SaveStateAndEvent`. -/
  | upsertState (state : State F)
  /-- The second one. -/
  | insertEvent (event : Event F)
  /-- `RecordAttempt` -/
  | insertAttempt (attempt : Attempt)

namespace Tables

/-- Freshly migrated tables. -/
def empty : Tables D F := { rows := [], sequence := fun _ => 0 }

variable [DecidableEq D]

/-- `INSERT` of a row whose key is given. -/
def insert (t : Tables D F) (row : Row D F) : Option (Tables D F) :=
  ((schema D F).insert row t.rows).map fun rows => { t with rows }

/-- `INSERT` of a row that gets the next id. -/
def insertSerial (t : Tables D F) (table : Serial) (row : Int → Row D F) : Option (Tables D F) :=
  let id := t.sequence table + 1
  ((schema D F).insert (row id) t.rows).map fun rows =>
    { rows, sequence := Function.update t.sequence table id }

/-- `UPDATE ... WHERE` the key is `k`. -/
def replace (t : Tables D F) (k : Key D) (f : Row D F → Row D F) : Option (Tables D F) :=
  ((schema D F).replace (fun row => decide (row.key = k)) f t.rows).map fun rows => { t with rows }

/-- `INSERT ... ON CONFLICT ... DO UPDATE`. -/
def upsert (t : Tables D F) (row : Row D F) (f : Row D F → Row D F) : Option (Tables D F) :=
  if (schema D F).has t.rows row.key then t.replace row.key f else t.insert row

/-- `DELETE ... WHERE`. -/
def delete (t : Tables D F) (p : Row D F → Bool) : Tables D F :=
  { t with rows := (schema D F).delete p t.rows }

/-- Another server has the token. -/
def tokenTaken (t : Tables D F) (tokenHash : D) (id : Int) : Bool :=
  t.rows.any fun row => row.tokenHash? = some tokenHash ∧ row.key ≠ .server id

/-- What `UPDATE servers` makes of a row. -/
def onServer (f : ServerRow D → ServerRow D) : Row D F → Row D F
  | .server row => .server { f row with id := row.id }
  | row => row

/-- One statement; `none` is an error of the database. -/
def exec (t : Tables D F) : Statement D F → Option (Tables D F)
  | .insertAdmin username passwordHash now => t.insert (.admin username passwordHash now)
  | .insertSession tokenHash adminID expiresAt now =>
    t.insert (.session tokenHash adminID expiresAt now)
  | .deleteSession tokenHash => t.delete fun row => row.key = .session tokenHash
  | .insertServer name tokenHash now =>
    if t.tokenTaken tokenHash (t.sequence .servers + 1) then none
    else t.insertSerial .servers fun id => .server
      { id, name, tokenHash, enabled := true, agentVersion := "", createdAt := now
        updatedAt := now }
  | .updateServer id name enabled now =>
    t.replace (.server id) (onServer fun row =>
      { row with name := name.getD row.name, enabled := enabled.getD row.enabled
                 updatedAt := now })
  | .setToken id tokenHash now =>
    if t.tokenTaken tokenHash id then none
    else t.replace (.server id) (onServer fun row => { row with tokenHash, updatedAt := now })
  | .setAgentVersion id version =>
    t.replace (.server id) (onServer fun row => { row with agentVersion := version })
  | .deleteServer id => t.delete fun row => row.key = .server id
  | .upsertMinute serverID minuteUnix payload now =>
    t.upsert (.minute serverID minuteUnix payload now) fun
      | .minute serverID minuteUnix _ createdAt => .minute serverID minuteUnix payload createdAt
      | row => row
  | .deleteMinutesBefore cutoffUnix => t.delete fun
    | .minute _ minuteUnix _ _ => minuteUnix < cutoffUnix
    | _ => false
  | .upsertWebhook config now =>
    t.upsert (.webhook { config with createdAt := now, updatedAt := now }) fun
      | .webhook row => .webhook { config with createdAt := row.createdAt, updatedAt := now }
      | row => row
  | .insertRule rule now =>
    t.insertSerial .rules fun id => .rule { rule with id, createdAt := now, updatedAt := now }
  | .updateRule rule now => t.replace (.rule rule.id) fun
    | .rule row => .rule (Repository.updatedRow now rule row)
    | row => row
  | .deleteRule id => t.delete fun row => row.key = .rule id
  | .upsertState state => t.upsert (.state state) fun
    | .state row => .state { state with ruleID := row.ruleID }
    | row => row
  | .insertEvent event => t.insertSerial .events fun id => .event { event with id }
  | .insertAttempt attempt => t.insertSerial .attempts fun id => .attempt { attempt with id }

/-- A transaction: its statements in turn, up to the first error. -/
def transaction (t : Tables D F) : List (Statement D F) → Option (Tables D F)
  | [] => some t
  | statement :: rest => (t.exec statement).bind (·.transaction rest)

/-- A call: a transaction, and whether it fails for a reason outside the program. -/
structure Call (D F : Type) where
  statements : List (Statement D F)
  fails : Bool

/-- A call that fails is rolled back. -/
def step (t : Tables D F) (call : Call D F) : Tables D F :=
  if call.fails then t else (t.transaction call.statements).getD t

/-! ## What a statement can do -/

/-- The rows of servers have tokens of their own. -/
def TokensUnique (rows : List (Row D F)) : Prop := (rows.filterMap Row.tokenHash?).Nodup

/-- What a statement makes of the tables. -/
inductive Change (t : Tables D F) : Tables D F → Prop where
  | inserted {row : Row D F} (hplain : ∀ table id, row.key ≠ Serial.key table id)
      (hfresh : (schema D F).has t.rows row.key = false)
      (hrefs : (schema D F).resolves t.rows row = true) :
      Change t { t with rows := t.rows ++ [row] }
  | numbered {table : Serial} {row : Row D F}
      (hkey : row.key = Serial.key table (t.sequence table + 1))
      (htoken : ∀ tokenHash ∈ row.tokenHash?, tokenHash ∉ t.rows.filterMap Row.tokenHash?)
      (hrefs : (schema D F).resolves t.rows row = true) :
      Change t { rows := t.rows ++ [row]
                 sequence := Function.update t.sequence table (t.sequence table + 1) }
  | replaced {rows : List (Row D F)} {k : Key D} {f : Row D F → Row D F}
      (hkey : ∀ row, (f row).key = row.key)
      (htokens : (t.rows.map Row.key).Nodup → TokensUnique t.rows → TokensUnique rows)
      (hrun : (schema D F).replace (fun row => decide (row.key = k)) f t.rows = some rows) :
      Change t { t with rows }
  | deleted (p : Row D F → Bool) : Change t (t.delete p)

section Changes

variable {t t' : Tables D F}

omit [DecidableEq D] in
theorem key_onServer (f : ServerRow D → ServerRow D) (row : Row D F) :
    (onServer f row).key = row.key := by
  cases row <;> rfl

/-- A token hash is taken if another server has it. -/
theorem tokenTaken_iff {tokenHash : D} {id : Int} : t.tokenTaken tokenHash id = true ↔
    ∃ row ∈ t.rows, row.tokenHash? = some tokenHash ∧ row.key ≠ .server id := by
  simp only [tokenTaken, List.any_eq_true, decide_eq_true_eq]

omit [DecidableEq D] in
/-- A replacement that leaves the tokens alone. -/
theorem tokensUnique_map {f : Row D F → Row D F} (hf : ∀ row, (f row).tokenHash? = row.tokenHash?)
    (p : Row D F → Bool) {rows : List (Row D F)} (h : TokensUnique rows) :
    TokensUnique (rows.map fun row => if p row then f row else row) := by
  unfold TokensUnique at *
  rw [List.filterMap_map]
  refine (congrArg List.Nodup (List.filterMap_congr fun row _ => ?_)).mpr h
  rw [Function.comp_apply]
  split
  next => exact hf row
  next => rfl

/-- A row inserted under a key that is no number. -/
theorem change_insert {row : Row D F} (hplain : ∀ table id, row.key ≠ Serial.key table id)
    (h : t.insert row = some t') : Change t t' := by
  obtain ⟨rows, hrows, rfl⟩ := Option.map_eq_some_iff.mp h
  obtain ⟨hfresh, hrefs, rfl⟩ := Schema.insert_eq_some.mp hrows
  exact .inserted hplain hfresh hrefs

/-- A row inserted under the next id of its table. -/
theorem change_insertSerial {table : Serial} {row : Int → Row D F}
    (h : t.insertSerial table row = some t') (hkey : ∀ id, (row id).key = Serial.key table id)
    (htoken : ∀ id, (row id).tokenHash? = none) : Change t t' := by
  obtain ⟨rows, hrows, rfl⟩ := Option.map_eq_some_iff.mp h
  obtain ⟨-, hrefs, rfl⟩ := Schema.insert_eq_some.mp hrows
  refine .numbered (hkey _) (fun token h => ?_) hrefs
  rw [htoken] at h
  cases h

/-- A row updated in place, without its key or its token hash. -/
theorem change_replace {k : Key D} {f : Row D F → Row D F} (hkey : ∀ row, (f row).key = row.key)
    (htoken : ∀ row, (f row).tokenHash? = row.tokenHash?) (h : t.replace k f = some t') :
    Change t t' := by
  obtain ⟨rows, hrows, rfl⟩ := Option.map_eq_some_iff.mp h
  refine .replaced hkey (fun _ htokens => ?_) hrows
  obtain ⟨rfl, -⟩ := Schema.replace_eq_some.mp hrows
  exact tokensUnique_map htoken _ htokens

/-- A row inserted, or updated in place where its key is there already. -/
theorem change_upsert {row : Row D F} {f : Row D F → Row D F}
    (hplain : ∀ table id, row.key ≠ Serial.key table id) (hkey : ∀ row, (f row).key = row.key)
    (htoken : ∀ row, (f row).tokenHash? = row.tokenHash?) (h : t.upsert row f = some t') :
    Change t t' := by
  unfold upsert at h
  split at h
  next => exact change_replace hkey htoken h
  next => exact change_insert hplain h

/-- `UPDATE servers SET token_hash=?`: a token that no other server has goes to one server. -/
theorem change_setToken {id : Int} {f : ServerRow D → ServerRow D} {tokenHash : D}
    (h : t.replace (.server id) (onServer f) = some t')
    (htaken : t.tokenTaken tokenHash id = false) (hf : ∀ row, (f row).tokenHash = tokenHash) :
    Change t t' := by
  obtain ⟨rows, hrows, rfl⟩ := Option.map_eq_some_iff.mp h
  refine .replaced (key_onServer f) (fun hkeys htokens => ?_) hrows
  obtain ⟨rfl, -⟩ := Schema.replace_eq_some.mp hrows
  have hothers : ∀ row ∈ t.rows, row.tokenHash? = some tokenHash → row.key = .server id := by
    intro row hrow htoken
    by_contra hkey
    rw [tokenTaken_iff.mpr ⟨row, hrow, htoken, hkey⟩] at htaken
    cases htaken
  unfold TokensUnique at *
  rw [List.filterMap_map, List.Nodup, List.pairwise_filterMap]
  rw [List.Nodup, List.pairwise_filterMap] at htokens
  refine ((List.pairwise_map.mp hkeys).and htokens).imp_of_mem ?_
  intro a b ha hb hab x hx y hy
  simp only [Function.comp_apply, decide_eq_true_eq] at hx hy
  -- of two rows at most one is the server, and the token is new to the other
  have hserver : ∀ {row : Row D F}, row.key = .server id → (onServer f row).tokenHash? =
      some tokenHash := fun {row} hkey => by
    cases row <;> simp only [Row.key, reduceCtorEq] at hkey
    exact congrArg some (hf _)
  split at hx <;> split at hy
  next hkeya hkeyb => exact absurd (hkeya.trans hkeyb.symm) hab.1
  next hkeya hkeyb =>
    rw [hserver hkeya] at hx
    rintro rfl
    cases hx
    exact hkeyb (hothers b hb hy)
  next hkeya hkeyb =>
    rw [hserver hkeyb] at hy
    rintro rfl
    cases hy
    exact hkeya (hothers a ha hx)
  next => exact hab.2 x hx y hy

/-- **What a statement can do.** -/
theorem exec_change {statement : Statement D F} (h : t.exec statement = some t') :
    Change t t' := by
  cases statement with
  | insertAdmin username passwordHash now =>
    exact change_insert (fun table id => by cases table <;> exact nofun) h
  | insertSession tokenHash adminID expiresAt now =>
    exact change_insert (fun table id => by cases table <;> exact nofun) h
  | deleteSession tokenHash =>
    cases h
    exact .deleted _
  | insertServer name tokenHash now =>
    simp only [exec] at h
    split at h
    next => cases h
    next htaken =>
      obtain ⟨rows, hrows, rfl⟩ := Option.map_eq_some_iff.mp h
      obtain ⟨hfresh, hrefs, rfl⟩ := Schema.insert_eq_some.mp hrows
      refine .numbered rfl (fun token htoken hmem => htaken ?_) hrefs
      cases htoken
      obtain ⟨row, hrow, htoken⟩ := List.mem_filterMap.mp hmem
      refine tokenTaken_iff.mpr ⟨row, hrow, htoken, fun hkey => ?_⟩
      rw [Schema.has_iff.mpr ⟨row, hrow, hkey⟩] at hfresh
      cases hfresh
  | updateServer id name enabled now =>
    exact change_replace (key_onServer _) (fun row => by cases row <;> rfl) h
  | setToken id tokenHash now =>
    simp only [exec] at h
    split at h
    next => cases h
    next htaken => exact change_setToken h (Bool.not_eq_true _ ▸ htaken) fun _ => rfl
  | setAgentVersion id version =>
    exact change_replace (key_onServer _) (fun row => by cases row <;> rfl) h
  | deleteServer id =>
    cases h
    exact .deleted _
  | upsertMinute serverID minuteUnix payload now =>
    exact change_upsert (fun table id => by cases table <;> exact nofun)
      (fun row => by cases row <;> rfl) (fun row => by cases row <;> rfl) h
  | deleteMinutesBefore cutoffUnix =>
    cases h
    exact .deleted _
  | upsertWebhook config now =>
    exact change_upsert (fun table id => by cases table <;> exact nofun)
      (fun row => by cases row <;> rfl) (fun row => by cases row <;> rfl) h
  | insertRule rule now =>
    rw [exec] at h
    exact change_insertSerial h (fun _ => rfl) fun _ => rfl
  | updateRule rule now =>
    exact change_replace (fun row => by cases row <;> rfl) (fun row => by cases row <;> rfl) h
  | deleteRule id =>
    cases h
    exact .deleted _
  | upsertState state =>
    exact change_upsert (fun table id => by cases table <;> exact nofun)
      (fun row => by cases row <;> rfl) (fun row => by cases row <;> rfl) h
  | insertEvent event =>
    rw [exec] at h
    exact change_insertSerial h (fun _ => rfl) fun _ => rfl
  | insertAttempt attempt =>
    rw [exec] at h
    exact change_insertSerial h (fun _ => rfl) fun _ => rfl

end Changes

/-! ## Sound tables -/

/-- What the keys, the references and `AUTOINCREMENT` promise. -/
structure Sound (t : Tables D F) : Prop where
  keys : (t.rows.map Row.key).Nodup
  intact : (schema D F).Intact t.rows
  tokens : TokensUnique t.rows
  given : ∀ row ∈ t.rows, ∀ table id, row.key = Serial.key table id →
    1 ≤ id ∧ id ≤ t.sequence table
  order : t.rows.Pairwise fun a b => ∀ table i j, a.key = Serial.key table i →
    b.key = Serial.key table j → i < j
  sequence : ∀ table, 0 ≤ t.sequence table

/-- A key that was given out and that no row has. -/
def Gone (t : Tables D F) (table : Serial) (id : Int) : Prop :=
  id ≤ t.sequence table ∧ ∀ row ∈ t.rows, row.key ≠ Serial.key table id

section Runs

variable {t t' : Tables D F} {table : Serial} {id : Int}

omit [DecidableEq D] in
theorem Serial.key_inj {table table' : Serial} {id id' : Int}
    (h : (table.key id : Key D) = table'.key id') : table = table' ∧ id = id' := by
  cases table <;> cases table' <;> simp_all [Serial.key]

/-- Freshly migrated tables have no rows. -/
theorem sound_empty : Sound (empty : Tables D F) where
  keys := List.nodup_nil
  intact := fun _ h => absurd h List.not_mem_nil
  tokens := List.nodup_nil
  given := fun _ h => absurd h List.not_mem_nil
  order := List.Pairwise.nil
  sequence := fun _ => Int.le_refl _

theorem has_eq_false {rows : List (Row D F)} {k : Key D}
    (h : (schema D F).has rows k = false) : k ∉ rows.map Row.key := by
  intro hmem
  obtain ⟨row, hrow, hkey⟩ := List.mem_map.mp hmem
  rw [Schema.has_iff.mpr ⟨row, hrow, hkey⟩] at h
  cases h

omit [DecidableEq D] in
theorem nodup_map_append {rows : List (Row D F)} {row : Row D F} (h : (rows.map Row.key).Nodup)
    (hfresh : row.key ∉ rows.map Row.key) : ((rows ++ [row]).map Row.key).Nodup := by
  rw [List.map_append, List.nodup_append]
  refine ⟨h, List.nodup_singleton _, fun k hk k' hk' => ?_⟩
  rw [List.map_singleton, List.mem_singleton] at hk'
  rintro rfl
  exact hfresh (hk' ▸ hk)

/-- A new row whose references resolve leaves all references resolved. -/
theorem intact_append {rows : List (Row D F)} {row : Row D F} (h : (schema D F).Intact rows)
    (hfresh : row.key ∉ rows.map Row.key) (hrefs : (schema D F).resolves rows row = true) :
    (schema D F).Intact (rows ++ [row]) := by
  refine h.insert (Schema.insert_eq_some.mpr ⟨?_, hrefs, rfl⟩)
  rw [← Bool.not_eq_true, Schema.has_iff]
  rintro ⟨r, hr, hkey⟩
  exact hfresh (List.mem_map.mpr ⟨r, hr, hkey⟩)

/-- The next id of a sound table is not taken. -/
theorem Sound.fresh (h : t.Sound) {row : Row D F}
    (hkey : row.key = Serial.key table (t.sequence table + 1)) :
    row.key ∉ t.rows.map Row.key := by
  intro hmem
  obtain ⟨other, hother, heq⟩ := List.mem_map.mp hmem
  have := (h.given other hother table _ (heq.trans hkey)).2
  omega

omit [DecidableEq D] in
theorem keys_map {f : Row D F → Row D F} (hkey : ∀ row, (f row).key = row.key)
    (p : Row D F → Bool) (rows : List (Row D F)) :
    (rows.map fun row => if p row then f row else row).map Row.key = rows.map Row.key := by
  rw [List.map_map]
  refine List.map_congr_left fun row _ => ?_
  rw [Function.comp_apply]
  split
  next => exact hkey row
  next => rfl

omit [DecidableEq D] in
/-- A row whose key is not an `AUTOINCREMENT` id has no token, as only servers have. -/
private theorem tokens_append_plain {rows : List (Row D F)} {row : Row D F}
    (h : TokensUnique rows) (hplain : ∀ table id, row.key ≠ Serial.key table id) :
    TokensUnique (rows ++ [row]) := by
  have hnone : row.tokenHash? = none := by
    cases row with
    | server row => exact absurd rfl (hplain .servers row.id)
    | _ => rfl
  rw [TokensUnique, List.filterMap_append, List.filterMap_cons_none hnone, List.filterMap_nil,
    List.append_nil]
  exact h

omit [DecidableEq D] in
private theorem tokens_append {rows : List (Row D F)} {row : Row D F} (h : TokensUnique rows)
    (htoken : ∀ tokenHash ∈ row.tokenHash?, tokenHash ∉ rows.filterMap Row.tokenHash?) :
    TokensUnique (rows ++ [row]) := by
  rw [TokensUnique, List.filterMap_append, List.nodup_append]
  refine ⟨h, ?_, fun token hold token' hnew => ?_⟩
  · cases hrow : row.tokenHash? <;> simp [List.filterMap, hrow]
  · obtain ⟨row', hrow', htoken'⟩ := List.mem_filterMap.mp hnew
    rw [List.mem_singleton.mp hrow'] at htoken'
    rintro rfl
    exact htoken _ htoken' hold

/-- A row without an `AUTOINCREMENT` id is inserted. -/
private theorem Sound.inserted (h : t.Sound) {row : Row D F}
    (hplain : ∀ table id, row.key ≠ Serial.key table id)
    (hfresh : (schema D F).has t.rows row.key = false)
    (hrefs : (schema D F).resolves t.rows row = true) :
    Sound { t with rows := t.rows ++ [row] } where
  keys := nodup_map_append h.keys (has_eq_false hfresh)
  intact := intact_append h.intact (has_eq_false hfresh) hrefs
  tokens := tokens_append_plain h.tokens hplain
  given := by
    refine List.forall_mem_append.mpr ⟨h.given, fun row' hrow' table id hkey => ?_⟩
    rw [List.mem_singleton.mp hrow'] at hkey
    exact absurd hkey (hplain table id)
  order := by
    refine List.pairwise_append.mpr ⟨h.order, List.pairwise_singleton _ _, ?_⟩
    intro a _ b hb table i j _ hkey
    rw [List.mem_singleton.mp hb] at hkey
    exact absurd hkey (hplain table j)
  sequence := h.sequence

/-- A sequence never goes back. -/
private theorem le_sequence_update (sequence : Serial → Int) (table table' : Serial) :
    sequence table' ≤ Function.update sequence table (sequence table + 1) table' := by
  rw [Function.update_apply]
  split
  next heq => rw [heq]; omega
  next => exact Int.le_refl _

/-- A row is inserted under the next id of its table. -/
private theorem Sound.numbered (h : t.Sound) {row : Row D F}
    (hkey : row.key = Serial.key table (t.sequence table + 1))
    (htoken : ∀ tokenHash ∈ row.tokenHash?, tokenHash ∉ t.rows.filterMap Row.tokenHash?)
    (hrefs : (schema D F).resolves t.rows row = true) :
    Sound { rows := t.rows ++ [row]
            sequence := Function.update t.sequence table (t.sequence table + 1) } where
  keys := nodup_map_append h.keys (h.fresh hkey)
  intact := intact_append h.intact (h.fresh hkey) hrefs
  tokens := tokens_append h.tokens htoken
  given := by
    refine List.forall_mem_append.mpr ⟨fun row' hrow' table' id hkey' => ?_, ?_⟩
    · have := h.given row' hrow' table' id hkey'
      exact ⟨this.1, Int.le_trans this.2 (le_sequence_update t.sequence table table')⟩
    · intro row' hrow' table' id hkey'
      rw [List.mem_singleton.mp hrow', hkey] at hkey'
      obtain ⟨rfl, rfl⟩ := Serial.key_inj hkey'
      have := h.sequence table
      refine ⟨by omega, Int.le_of_eq ?_⟩
      exact (Function.update_self table (t.sequence table + 1) t.sequence).symm
  order := by
    refine List.pairwise_append.mpr ⟨h.order, List.pairwise_singleton _ _, ?_⟩
    intro a ha b hb table' i j hkeya hkeyb
    rw [List.mem_singleton.mp hb, hkey] at hkeyb
    obtain ⟨rfl, rfl⟩ := Serial.key_inj hkeyb
    have := (h.given a ha table i hkeya).2
    omega
  sequence table' :=
    Int.le_trans (h.sequence table') (le_sequence_update t.sequence table table')

/-- Rows are replaced under their keys. -/
private theorem Sound.replaced (h : t.Sound) {rows : List (Row D F)} {k : Key D}
    {f : Row D F → Row D F} (hkey : ∀ row, (f row).key = row.key) (htokens : TokensUnique rows)
    (hrun : (schema D F).replace (fun row => decide (row.key = k)) f t.rows = some rows) :
    Sound { t with rows } := by
  obtain ⟨rfl, -⟩ := Schema.replace_eq_some.mp hrun
  have hkeys := keys_map hkey (fun row => decide (row.key = k)) t.rows
  have hrow : ∀ row : Row D F,
      (if (decide (row.key = k)) = true then f row else row).key = row.key := fun row => by
    split
    next => exact hkey row
    next => rfl
  exact
    { keys := hkeys ▸ h.keys
      intact := Schema.Intact.replace hkey hrun
      tokens := htokens
      given := by
        intro row hmem table id hid
        obtain ⟨old, hold, rfl⟩ := List.mem_map.mp hmem
        exact h.given old hold table id ((hrow old).symm.trans hid)
      order := by
        refine List.pairwise_map.mpr (h.order.imp fun hab table i j hi hj => ?_)
        exact hab table i j ((hrow _).symm.trans hi) ((hrow _).symm.trans hj)
      sequence := h.sequence }

/-- Rows go, and with them what refers to them. -/
private theorem Sound.deleted (h : t.Sound) (p : Row D F → Bool) : (t.delete p).Sound :=
  have hsub := Schema.delete_sublist (S := schema D F) p t.rows
  { keys := h.keys.sublist (hsub.map _)
    intact := h.intact.delete p
    tokens := h.tokens.sublist (hsub.filterMap _)
    given := fun row hrow => h.given row (hsub.subset hrow)
    order := h.order.sublist hsub
    sequence := h.sequence }

/-- **Every change keeps the tables sound.** -/
theorem Sound.change (h : t.Sound) (hchange : Change t t') : t'.Sound := by
  cases hchange with
  | inserted hplain hfresh hrefs => exact h.inserted hplain hfresh hrefs
  | numbered hkey htoken hrefs => exact h.numbered hkey htoken hrefs
  | replaced hkey htokens hrun => exact h.replaced hkey (htokens h.keys h.tokens) hrun
  | deleted p => exact h.deleted p

/-- What is kept by every change is kept by every transaction. -/
theorem transaction_invariant {Inv : Tables D F → Prop}
    (hchange : ∀ t t', Change t t' → Inv t → Inv t') (h : Inv t) :
    ∀ {statements : List (Statement D F)}, t.transaction statements = some t' → Inv t' := by
  intro statements hrun
  induction statements generalizing t with
  | nil =>
    cases hrun
    exact h
  | cons statement rest ih =>
    obtain ⟨t'', hexec, hrest⟩ := Option.bind_eq_some_iff.mp hrun
    exact ih (hchange t t'' (exec_change hexec) h) hrest

/-- What every change keeps, every call keeps: its statements are changes, and when one fails none
is made. -/
theorem step_invariant {Inv : Tables D F → Prop}
    (hchange : ∀ t t', Change t t' → Inv t → Inv t') (h : Inv t) (call : Call D F) :
    Inv (t.step call) := by
  unfold step
  split
  next => exact h
  next =>
    cases hrun : t.transaction call.statements with
    | none => exact h
    | some t' => exact transaction_invariant hchange h hrun

/-- **Keys, references, tokens and the order of ids in every run.** -/
theorem sound_after (calls : List (Call D F)) : Sound (run step empty calls) :=
  run_invariant (fun _ call h => step_invariant (fun _ _ hchange h => h.change hchange) h call)
    sound_empty calls

end Runs

end Tables

end TinyProbe.Db
