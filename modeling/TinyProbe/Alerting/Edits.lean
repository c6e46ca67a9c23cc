import TinyProbe.Alerting.Handler
import TinyProbe.Lib.Run

/-!
# Concurrent edits of a rule

`Handler.UpdateRule` reads the whole row, merges the fields of the request into it and writes the
whole row back, with a second statement. Requests interleave between the two, so a request can put
back a field as it was before another one changed it.

A write does what its patch says when the patch sets every field in which the row differs from what
the request has read (`Covers`). In every run in which all writes are such, the rows are what the
patches make of them one after another, in the order of the writes (`serial_of_guarded`). Two
requests that have both read the row before either writes lose the first one's field
(`overwritten_not_serial`).

`log` is a record of the writes, which no step reads. The response carries the status of the rule as
well; it takes a statement of its own, which can fail the request when the row is written already.
-/

namespace TinyProbe.Alerting

open TinyProbe.Run

variable {F : Type}

/-- `ruleUpdate`. -/
structure RuleUpdate (F : Type) where
  serverID : Option Int
  metric : Option Metric
  operator : Option Operator
  threshold : Option F
  durationSeconds : Option Int
  repeatSeconds : Option Int
  enabled : Option Bool

/-- `applyRuleUpdate`. -/
def applyRuleUpdate (current : Rule F) (update : RuleUpdate F) : Rule F :=
  { current with
    serverID := update.serverID.getD current.serverID
    metric := update.metric.getD current.metric
    operator := update.operator.getD current.operator
    threshold := update.threshold.getD current.threshold
    durationSeconds := update.durationSeconds.getD current.durationSeconds
    repeatSeconds := update.repeatSeconds.getD current.repeatSeconds
    enabled := update.enabled.getD current.enabled }

/-- `GetRule`. -/
def Repository.getRule (db : Database F) (id : Int) (fails stateFails : Bool) :
    Except RepositoryError (Rule F) :=
  if id < 1 then .error .invalidInput
  else if fails then .error .failed
  else
    match db.rule? id with
    | none => .error .notFound
    | some rule =>
      if scannable rule = false then .error .badRow
      else
        match getState db id stateFails with
        | .ok _ | .error .notFound => .ok rule
        | .error err => .error err

/-- Why a request fails. -/
inductive UpdateError where
  | repository (err : RepositoryError)
  /-- The body does not decode. -/
  | body
  /-- The lookup of the server. -/
  | server
deriving DecidableEq

/-- Where a request stands. -/
inductive UpdatePhase (F : Type) where
  /-- Before `GetRule`. -/
  | called
  /-- Before `UpdateRule`. -/
  | read (current : Rule F)
  | answered (outcome : Except UpdateError (Rule F))

/-- One PATCH request. -/
structure UpdateRequest (F : Type) where
  id : Int
  body : Option (RuleUpdate F)
  phase : UpdatePhase F

/-- One write of a row. -/
structure Edit (F : Type) where
  request : Nat
  ruleID : Int
  now : Time
  update : RuleUpdate F

/-- The tables and the requests under way. -/
structure Edits (F : Type) where
  db : Database F
  requests : Map Nat (UpdateRequest F)
  log : List (Edit F)

variable [Float64 F]

/-- What a patch makes of a row when nothing comes between. -/
def applied (now : Time) (row : Rule F) (update : RuleUpdate F) :
    Except RepositoryError (Rule F) :=
  (normalizeRule (applyRuleUpdate row update)).map fun rule => { rule with updatedAt := now }

/-- What edits make of a row one after another. -/
def serial (row : Rule F) (edits : List (Edit F)) : Except RepositoryError (Rule F) :=
  edits.foldlM (fun row edit => applied edit.now row edit.update) row

namespace Edits

def start (db : Database F) : Edits F := { db, requests := ∅, log := [] }

def request? (s : Edits F) (i : Nat) : Option (UpdateRequest F) := AList.lookup i s.requests

def put (s : Edits F) (i : Nat) (r : UpdateRequest F) : Edits F :=
  { s with requests := s.requests.insert i r }

/-- The edits of a rule. -/
def editsOf (s : Edits F) (id : Int) : List (Edit F) := s.log.filter (·.ruleID == id)

inductive Action (F : Type) where
  | call (i : Nat) (id : Int) (body : Option (RuleUpdate F))
  | read (i : Nat) (fails stateFails : Bool)
  /-- From decoding the body to the answer; `known` is whether the server is found. -/
  | write (i : Nat) (now : Time) (known fails stateFails : Bool)

/-- The second half of `Handler.UpdateRule`. -/
def write (s : Edits F) (i : Nat) (r : UpdateRequest F) (current : Rule F) (now : Time)
    (known fails stateFails : Bool) : Edits F :=
  match r.body with
  | none => s.put i { r with phase := .answered (.error .body) }
  | some update =>
    match normalizeRule (applyRuleUpdate current update) with
    | .error err => s.put i { r with phase := .answered (.error (.repository err)) }
    | .ok next =>
      if known = false then s.put i { r with phase := .answered (.error .server) }
      else
        let (result, db) := Repository.updateRule s.db now next fails stateFails
        { s.put i { r with phase := .answered (result.mapError .repository) } with
          db
          log :=
            if Repository.updates s.db next fails then s.log ++ [⟨i, r.id, now, update⟩]
            else s.log }

def step (s : Edits F) : Action F → Edits F
  | .call i id body =>
    match s.request? i with
    | some _ => s
    | none => s.put i { id, body, phase := .called }
  | .read i fails stateFails =>
    match s.request? i with
    | none => s
    | some r =>
      match r.phase with
      | .called =>
        match Repository.getRule s.db r.id fails stateFails with
        | .error err => s.put i { r with phase := .answered (.error (.repository err)) }
        | .ok current => s.put i { r with phase := .read current }
      | _ => s
  | .write i now known fails stateFails =>
    match s.request? i with
    | none => s
    | some r =>
      match r.phase with
      | .read current => s.write i r current now known fails stateFails
      | _ => s

end Edits

/-- The patch sets every field in which the row differs from what was read. An offline rule has no
duration and no threshold but zero, whatever the row has. -/
def Covers (update : RuleUpdate F) (current row : Rule F) : Prop :=
  (update.serverID.isSome ∨ row.serverID = current.serverID) ∧
  (update.metric.isSome ∨ row.metric = current.metric) ∧
  (update.operator.isSome ∨ row.operator = current.operator) ∧
  (update.threshold.isSome ∨ row.threshold = current.threshold ∨
    update.metric.getD current.metric = .offline ∧
      Float64.beq row.threshold (Float64.ofNat 0) = true) ∧
  (update.durationSeconds.isSome ∨ row.durationSeconds = current.durationSeconds ∨
    update.metric.getD current.metric = .offline) ∧
  (update.repeatSeconds.isSome ∨ row.repeatSeconds = current.repeatSeconds) ∧
  (update.enabled.isSome ∨ row.enabled = current.enabled)

/-- Every write that takes place is of a patch that covers what has changed. -/
def Covered (s : Edits F) : Edits.Action F → Prop
  | .write i _ true false _ =>
    match s.request? i with
    | some ⟨id, some update, .read current⟩ => ∀ row ∈ s.db.rule? id, Covers update current row
    | _ => True
  | _ => True

/-! ## A patch that covers -/

section Patch

variable {rule rule' current row next : Rule F} {update : RuleUpdate F}

/-- Nothing the checks read or set is in the columns the table fills in. -/
theorem normalizeRule_row (rule : Rule F) (id : Int) (createdAt updatedAt : Time) :
    normalizeRule { rule with id, createdAt, updatedAt } =
      (normalizeRule rule).map fun r => { r with id, createdAt, updatedAt } := by
  have hmetric : normalizeMetric { rule with id, createdAt, updatedAt } =
      (normalizeMetric rule).map fun r => { r with id, createdAt, updatedAt } := by
    unfold normalizeMetric
    dsimp only
    split <;> split <;> rfl
  unfold normalizeRule
  rw [hmetric]
  dsimp only
  split
  next => rfl
  next =>
    cases normalizeMetric rule with
    | none => rfl
    | some fixed =>
      dsimp only [Option.map_some]
      split <;> rfl

/-- `normalizeRule` keeps the id and the time of creation. -/
theorem normalizeRule_columns (h : normalizeRule rule = .ok rule') :
    rule'.id = rule.id ∧ rule'.createdAt = rule.createdAt := by
  have hmetric : ∀ fixed, normalizeMetric rule = some fixed →
      fixed.id = rule.id ∧ fixed.createdAt = rule.createdAt := by
    intro fixed hfixed
    unfold normalizeMetric at hfixed
    split at hfixed <;> split at hfixed <;> cases hfixed <;> exact ⟨rfl, rfl⟩
  unfold normalizeRule at h
  split at h
  next => cases h
  next =>
    split at h
    next => cases h
    next fixed hfixed =>
      split at h
      next => cases h
      next =>
        cases h
        exact hmetric _ hfixed

/-- The checks of an offline rule, whatever its duration and its zero. -/
theorem normalizeRule_offline (h : normalizeRule rule = .ok next) (hm : rule.metric = .offline)
    {threshold : F}
    (hzero : threshold = rule.threshold ∨ Float64.beq threshold (Float64.ofNat 0) = true)
    (durationSeconds : Int) :
    normalizeRule { rule with threshold, durationSeconds } = .ok next := by
  unfold normalizeRule at h ⊢
  dsimp only
  split at h
  next => cases h
  next hid =>
    rw [if_neg hid]
    unfold normalizeMetric at h ⊢
    rw [hm] at h
    dsimp only at h ⊢
    rw [hm]
    dsimp only
    split at h
    next hbad =>
      split at hbad
      next => cases h
      next => cases hbad
    next fixed hfixed =>
      split at hfixed
      next => cases hfixed
      next hok =>
        cases hfixed
        have hok' : ¬ (rule.operator ≠ .other "" ∧ rule.operator ≠ .greaterThan ∨
            Float64.beq threshold (Float64.ofNat 0) = false) := by
          rcases hzero with heq | hzero
          · rwa [heq]
          · rw [hzero]
            exact fun hbad => hok (Or.inl (hbad.resolve_right Bool.noConfusion))
        rw [if_neg hok']
        exact h

omit [Float64 F] in
/-- Where the request has a field, that of the row does not matter. -/
theorem getD_congr {A : Type} {o : Option A} {x y : A} (h : o.isSome ∨ x = y) :
    o.getD x = o.getD y := by
  cases o with
  | none => exact h.resolve_left Bool.noConfusion
  | some a => rfl

/-- **A patch that covers makes of the row what it has made of the row that was read.** -/
theorem normalizeRule_covers (hcovers : Covers update current row)
    (h : normalizeRule (applyRuleUpdate current update) = .ok next) :
    normalizeRule (applyRuleUpdate row update) =
      .ok { next with id := row.id, createdAt := row.createdAt, updatedAt := row.updatedAt } := by
  obtain ⟨hserver, hmetric, hoperator, hthreshold, hduration, hrepeat, henabled⟩ := hcovers
  have hrow : applyRuleUpdate row update = { applyRuleUpdate current update with
      threshold := update.threshold.getD row.threshold
      durationSeconds := update.durationSeconds.getD row.durationSeconds
      id := row.id, createdAt := row.createdAt, updatedAt := row.updatedAt } := by
    unfold applyRuleUpdate
    rw [getD_congr hserver, getD_congr hmetric, getD_congr hoperator, getD_congr hrepeat,
      getD_congr henabled]
  have hsame : normalizeRule { applyRuleUpdate current update with
      threshold := update.threshold.getD row.threshold
      durationSeconds := update.durationSeconds.getD row.durationSeconds } = .ok next := by
    by_cases hoffline : update.metric.getD current.metric = .offline
    · refine normalizeRule_offline h hoffline ?_ _
      rcases hthreshold with hset | heq | ⟨_, hzero⟩
      · exact Or.inl (getD_congr (Or.inl hset))
      · exact Or.inl (getD_congr (Or.inr heq))
      · by_cases hset : update.threshold.isSome
        · exact Or.inl (getD_congr (Or.inl hset))
        · rw [Option.not_isSome_iff_eq_none.mp hset]
          exact Or.inr hzero
    · have ht : update.threshold.getD row.threshold = update.threshold.getD current.threshold :=
        getD_congr (hthreshold.imp_right fun h => h.resolve_right fun h => hoffline h.1)
      have hd : update.durationSeconds.getD row.durationSeconds =
          update.durationSeconds.getD current.durationSeconds :=
        getD_congr (hduration.imp_right fun h => h.resolve_right hoffline)
      rw [ht, hd]
      exact h
  rw [hrow]
  refine (normalizeRule_row { applyRuleUpdate current update with
    threshold := update.threshold.getD row.threshold
    durationSeconds := update.durationSeconds.getD row.durationSeconds }
      row.id row.createdAt row.updatedAt).trans ?_
  rw [hsame]
  rfl

end Patch

/-! ## One step -/

namespace Edits

section Step

variable {s : Edits F} {i : Nat} {r : UpdateRequest F} {id : Int} {now : Time}

omit [Float64 F] in
theorem request?_put (j : Nat) :
    (s.put i r).request? j = if j = i then some r else s.request? j :=
  Map.lookup_insert _ _ _ _

omit [Float64 F] in
/-- Only the row of the rule changes. -/
theorem rule?_updated {db : Database F} {rule row : Rule F} (hrow : db.rule? rule.id = some row)
    (id' : Int) : (db.replaceRule rule.id (Repository.updatedRow now rule)).rule? id' =
      if id' = rule.id then some (Repository.updatedRow now rule row) else db.rule? id' := by
  rw [Database.rule?_replaceRule]
  by_cases heq : id' = rule.id
  · rw [heq, hrow, Option.map_some, if_pos (Database.rule?_id hrow), if_pos rfl]
    rfl
  · rw [if_neg heq]
    cases hother : db.rule? id' with
    | none => rfl
    | some other =>
      rw [Option.map_some, if_neg]
      rw [Database.rule?_id hother]
      exact heq

/-- The edits one after another, with one more at the end. -/
theorem serial_snoc (row : Rule F) (edits : List (Edit F)) (edit : Edit F) :
    serial row (edits ++ [edit]) =
      (serial row edits).bind fun row => applied edit.now row edit.update := by
  rw [serial, List.foldlM_append, ← serial]
  cases serial row edits with
  | error err => rfl
  | ok row =>
    show List.foldlM (fun row (edit : Edit F) => applied edit.now row edit.update) row [edit] = _
    rw [List.foldlM_cons]
    exact bind_pure _

/-- The rows are what their edits have made of them one after another. Every request that has
succeeded is among the edits of its rule, once, and only requests that are through are. -/
structure Serialized (db : Database F) (s : Edits F) : Prop where
  answered : ∀ i r rule, s.request? i = some r → r.phase = .answered (.ok rule) →
    ∃ edit ∈ s.log, edit.request = i ∧ edit.ruleID = r.id ∧ r.body = some edit.update
  logged : ∀ edit ∈ s.log, ∃ r outcome, s.request? edit.request = some r ∧ edit.ruleID = r.id ∧
    r.body = some edit.update ∧ r.phase = .answered outcome
  once : (s.log.map Edit.request).Nodup
  rows : ∀ id row, db.rule? id = some row →
    ∃ row', s.db.rule? id = some row' ∧ serial row (s.editsOf id) = .ok row'

structure Inv (db : Database F) (s : Edits F) : Prop extends Serialized db s where
  /-- What was read is the row but for the fields that writes change. -/
  read : ∀ i r current, s.request? i = some r → r.phase = .read current →
    current.id = r.id ∧ ∀ row, s.db.rule? r.id = some row → row.createdAt = current.createdAt

theorem inv_start (db : Database F) : Inv db (start db) where
  read i r current h := by cases h
  answered i r rule h := by cases h
  logged edit h := absurd h List.not_mem_nil
  once := List.nodup_nil
  rows id row h := ⟨row, h, rfl⟩

variable {db : Database F}

/-- A step of a request that writes nothing. -/
theorem Inv.put (h : Inv db s) {r' : UpdateRequest F}
    (hold : ∀ r, s.request? i = some r → r'.id = r.id ∧ r'.body = r.body ∧
      ∀ outcome, r.phase ≠ .answered outcome)
    (hread : ∀ current, r'.phase = .read current → current.id = r'.id ∧
      ∀ row, s.db.rule? r'.id = some row → row.createdAt = current.createdAt)
    (hanswered : ∀ rule, r'.phase ≠ .answered (.ok rule)) : Inv db (s.put i r') where
  read j r current hj hphase := by
    rw [request?_put] at hj
    split at hj
    next =>
      cases hj
      exact hread current hphase
    next => exact h.read j r current hj hphase
  answered j r rule hj hphase := by
    rw [request?_put] at hj
    split at hj
    next =>
      cases hj
      exact absurd hphase (hanswered rule)
    next => exact h.answered j r rule hj hphase
  logged edit hedit := by
    obtain ⟨r, outcome, hr, hid, hbody, hphase⟩ := h.logged edit hedit
    refine ⟨r, outcome, ?_, hid, hbody, hphase⟩
    rw [request?_put, if_neg]
    · exact hr
    · rintro rfl
      exact (hold r hr).2.2 outcome hphase
  once := h.once
  rows := h.rows

theorem inv_call (h : Inv db s) (body : Option (RuleUpdate F)) :
    Inv db (s.step (.call i id body)) := by
  simp only [step]
  split
  next => exact h
  next hnone =>
    refine h.put ?_ ?_ ?_
    · intro r hr
      rw [hnone] at hr
      cases hr
    · intro current hphase
      cases hphase
    · intro rule hphase
      cases hphase

omit [Float64 F] in
/-- `GetRule` returns the row. -/
theorem getRule_ok {fails stateFails : Bool} {rule : Rule F}
    (h : Repository.getRule db id fails stateFails = .ok rule) : db.rule? id = some rule := by
  unfold Repository.getRule at h
  split at h
  next => cases h
  next =>
    split at h
    next => cases h
    next =>
      split at h
      next => cases h
      next row hrow =>
        split at h
        next => cases h
        next =>
          split at h
          next =>
            cases h
            exact hrow
          next =>
            cases h
            exact hrow
          next => cases h

/-- Reading the row changes nothing but what the request has seen. -/
theorem inv_read (h : Inv db s) (fails stateFails : Bool) :
    Inv db (s.step (.read i fails stateFails)) := by
  simp only [step]
  split
  next => exact h
  next r hr =>
    split
    next hphase =>
      have hold : ∀ r', s.request? i = some r' → r.id = r'.id ∧ r.body = r'.body ∧
          ∀ outcome, r'.phase ≠ .answered outcome := by
        intro r' hr'
        cases hr.symm.trans hr'
        refine ⟨rfl, rfl, fun outcome heq => ?_⟩
        rw [hphase] at heq
        cases heq
      split
      next err herr =>
        refine h.put hold ?_ ?_
        · intro current hread
          cases hread
        · intro rule hanswered
          cases hanswered
      next current hcurrent =>
        have hrow := getRule_ok hcurrent
        refine h.put hold ?_ ?_
        · intro current' hread
          cases hread
          refine ⟨Database.rule?_id hrow, fun row hrow' => ?_⟩
          cases hrow.symm.trans hrow'
          rfl
        · intro rule hanswered
          cases hanswered
    next => exact h

omit [Float64 F] in
theorem filter_snoc (edits : List (Edit F)) (edit : Edit F) (id : Int) :
    (edits ++ [edit]).filter (·.ruleID == id) =
      edits.filter (·.ruleID == id) ++ if edit.ruleID = id then [edit] else [] := by
  simp only [List.filter_append, List.filter_cons, List.filter_nil, beq_iff_eq]

/-- **A write that its patch covers** appends the patch to the edits of the row. -/
theorem Inv.written (h : Inv db s) (hr : s.request? i = some r) {current next row : Rule F}
    {update : RuleUpdate F} (hphase : r.phase = .read current) (hbody : r.body = some update)
    (hnext : normalizeRule (applyRuleUpdate current update) = .ok next)
    (hrow : s.db.rule? next.id = some row) (hcovers : Covers update current row)
    (outcome : Except UpdateError (Rule F)) :
    Inv db { s.put i { r with phase := .answered outcome } with
      db := s.db.replaceRule next.id (Repository.updatedRow now next)
      log := s.log ++ [⟨i, r.id, now, update⟩] } := by
  have hid : next.id = r.id := (normalizeRule_columns hnext).1.trans (h.read i r current hr hphase).1
  have hnew : ∀ edit ∈ s.log, edit.request ≠ i := by
    rintro edit hedit rfl
    obtain ⟨r', outcome', hr', _, _, hphase'⟩ := h.logged edit hedit
    cases hr.symm.trans hr'
    rw [hphase] at hphase'
    cases hphase'
  refine ⟨⟨?_, ?_, ?_, ?_⟩, ?_⟩
  rotate_right
  · intro j r' current' hj hphase'
    have hj' := (request?_put j).symm.trans hj
    split at hj'
    next =>
      cases hj'
      cases hphase'
    next =>
      obtain ⟨hread, hcreated⟩ := h.read j r' current' hj' hphase'
      refine ⟨hread, fun row' hrow' => ?_⟩
      rw [rule?_updated hrow] at hrow'
      split at hrow'
      next heq =>
        cases hrow'
        exact hcreated row (heq ▸ hrow)
      next => exact hcreated row' hrow'
  · intro j r' rule hj hphase'
    have hj' := (request?_put j).symm.trans hj
    split at hj'
    next heq =>
      cases hj'
      exact ⟨_, List.mem_append_right _ List.mem_cons_self, heq.symm, rfl, hbody⟩
    next =>
      obtain ⟨edit, hedit, hrest⟩ := h.answered j r' rule hj' hphase'
      exact ⟨edit, List.mem_append_left _ hedit, hrest⟩
  · intro edit hedit
    rcases List.mem_append.mp hedit with hold | hlast
    · obtain ⟨r', outcome', hr', hrest⟩ := h.logged edit hold
      exact ⟨r', outcome', ((request?_put _).trans (if_neg (hnew edit hold))).trans hr', hrest⟩
    · cases List.mem_singleton.mp hlast
      exact ⟨_, outcome, (request?_put i).trans (if_pos rfl), rfl, hbody, rfl⟩
  · rw [List.map_append]
    refine List.nodup_append.mpr ⟨h.once, List.nodup_singleton i, ?_⟩
    intro a ha b hb
    obtain ⟨edit, hedit, rfl⟩ := List.mem_map.mp ha
    rw [List.mem_singleton.mp hb]
    exact hnew edit hedit
  · intro id row₀ hrow₀
    obtain ⟨row', hrow', hserial⟩ := h.rows id row₀ hrow₀
    rw [rule?_updated hrow, editsOf, filter_snoc]
    by_cases heq : id = next.id
    · rw [heq, hrow] at hrow'
      cases hrow'
      rw [if_pos heq, if_pos (hid.symm.trans heq.symm), serial_snoc, ← editsOf, hserial]
      refine ⟨_, rfl, ?_⟩
      show applied now row update = _
      rw [applied, normalizeRule_covers hcovers hnext]
      rfl
    · have hother : ¬ r.id = id := fun h => heq (h.symm.trans hid.symm)
      rw [if_neg heq, if_neg hother, List.append_nil]
      exact ⟨row', hrow', hserial⟩

/-- What the condition says of a request that is about to write. -/
theorem covers_of_covered {stateFails : Bool} {update : RuleUpdate F} {current row : Rule F}
    (hok : Covered s (.write i now true false stateFails)) (hr : s.request? i = some r)
    (hphase : r.phase = .read current) (hbody : r.body = some update)
    (hrow : s.db.rule? r.id = some row) : Covers update current row := by
  obtain ⟨id, body, phase⟩ := r
  cases hphase
  cases hbody
  simp only [Covered, hr] at hok
  exact hok row hrow

/-- A write whose patch covers what has changed since its read has the effect of its edit alone. -/
theorem inv_write (h : Inv db s) {known fails stateFails : Bool}
    (hok : Covered s (.write i now known fails stateFails)) :
    Inv db (s.step (.write i now known fails stateFails)) := by
  simp only [step]
  split
  next => exact h
  next r hr =>
    split
    next current hphase =>
      have hfailed : ∀ err, Inv db (s.put i { r with phase := .answered (.error err) }) := by
        intro err
        refine h.put ?_ ?_ ?_
        · intro r' hr'
          cases hr.symm.trans hr'
          refine ⟨rfl, rfl, fun outcome heq => ?_⟩
          rw [hphase] at heq
          cases heq
        · intro current' hread
          cases hread
        · intro rule hanswered
          cases hanswered
      unfold write
      split
      next => exact hfailed _
      next update hbody =>
        split
        next => exact hfailed _
        next next hnext =>
          split
          next => exact hfailed _
          next hknown =>
            obtain ⟨hyes, hno⟩ := @Repository.updateRule_updates F s.db now next fails stateFails
            dsimp only
            cases hupdates : Repository.updates s.db next fails with
            | false =>
              obtain ⟨err, herr⟩ := hno hupdates
              rw [herr]
              exact hfailed _
            | true =>
              obtain ⟨row, hrow, hdb⟩ := hyes hupdates
              rw [hdb, if_pos rfl]
              have hid : next.id = r.id :=
                (normalizeRule_columns hnext).1.trans (h.read i r current hr hphase).1
              simp only [Repository.updates, Bool.and_eq_true, Bool.not_eq_true'] at hupdates
              rw [Bool.eq_true_of_not_eq_false hknown, hupdates.1.2] at hok
              exact h.written hr hphase hbody hnext hrow
                (covers_of_covered hok hr hphase hbody (hid ▸ hrow)) _
    next => exact h

/-- Every step that the condition covers leaves the rows as serial edits make them. -/
theorem inv_step (a : Action F) (hok : Covered s a) (h : Inv db s) : Inv db (s.step a) := by
  cases a with
  | call i id body => exact inv_call h body
  | read i fails stateFails => exact inv_read h fails stateFails
  | write i now known fails stateFails => exact inv_write h hok

end Step

/-- **Edits whose writes all cover what has changed are serializable**, in the order of the writes:
every row is what the edits that wrote it make of it one after another, and each request that
succeeded is one of them, once. A write that leaves out a field which another one has changed since
it was read puts the old value back. -/
theorem serial_of_guarded (db : Database F) (as : List (Action F))
    (hg : Guarded step Covered (start db) as) : Serialized db (run step (start db) as) :=
  (Guarded.invariant (fun _ a hok h => inv_step a hok h) (inv_start db) hg).toSerialized

/-! ## Two requests -/

instance [DecidableEq F] (update : RuleUpdate F) (current row : Rule F) :
    Decidable (Covers update current row) := by
  unfold Covers
  infer_instance

instance decidableCovered [DecidableEq F] (s : Edits F) (a : Action F) :
    Decidable (Covered s a) := by
  unfold Covered
  split
  · split <;> infer_instance
  · infer_instance

/-- The request has succeeded. -/
def succeeded (s : Edits F) (i : Nat) : Bool :=
  match (s.request? i).map UpdateRequest.phase with
  | some (.answered (.ok _)) => true
  | _ => false

def noUpdate : RuleUpdate Exact :=
  { serverID := none, metric := none, operator := none, threshold := none, durationSeconds := none
    repeatSeconds := none, enabled := none }

/-- A rule on the CPU of server 1. -/
def cpuRule : Rule Exact :=
  { id := 1, serverID := 1, metric := .cpuUsage, operator := .greaterThan, threshold := .fin 80
    durationSeconds := 300, repeatSeconds := 0, enabled := true, createdAt := .ofUnix 0
    updatedAt := .ofUnix 0 }

/-- Request 1 switches the rule off, request 2 is `update`; both read before either writes. -/
def crossed (update : RuleUpdate Exact) : List (Action Exact) :=
  [.call 1 1 (some { noUpdate with enabled := some false }), .call 2 1 (some update),
    .read 1 false false, .read 2 false false,
    .write 1 (.ofUnix 10) true false false, .write 2 (.ofUnix 11) true false false]

/-- The second one sets the switch as well. -/
theorem covered_serialized :
    (succeeded (run step (start (Database.empty.insertRule cpuRule))
      (crossed { noUpdate with enabled := some true, threshold := some (.fin 90) })) 2 = true) ∧
    Serialized (Database.empty.insertRule cpuRule)
      (run step (start (Database.empty.insertRule cpuRule))
        (crossed { noUpdate with enabled := some true, threshold := some (.fin 90) })) :=
  ⟨by decide +kernel, serial_of_guarded _ _ (by decide +kernel)⟩

/-- The second one sets the threshold only. Both succeed and the rule is on; in either order the
patches leave it off. -/
theorem overwritten_not_serial :
    let s := run step (start (Database.empty.insertRule cpuRule))
      (crossed { noUpdate with threshold := some (.fin 90) })
    let off : Edit Exact := ⟨1, 1, .ofUnix 10, { noUpdate with enabled := some false }⟩
    let ninety : Edit Exact := ⟨2, 1, .ofUnix 11, { noUpdate with threshold := some (.fin 90) }⟩
    (s.succeeded 1 = true ∧ s.succeeded 2 = true) ∧
      (s.db.rule? 1).map Rule.enabled = some true ∧
      (serial cpuRule [off, ninety]).toOption.map Rule.enabled = some false ∧
      (serial cpuRule [ninety, off]).toOption.map Rule.enabled = some false := by
  decide +kernel

end Edits

end TinyProbe.Alerting
