import TinyProbe.Base.Finite
import TinyProbe.Alerting.Edits

/-!
# The normal form of stored rules

A rule is stored by `CreateRule` and by `UpdateRule` only, each behind `normalizeRule`, whatever the
request has merged the new fields with. So every row is a fixed point of `normalizeRule`, and the
fixed points with a finite threshold are the rules in `NormalForm` (`normalForm_of_normalized`): a
NaN would pass the checks of a percentage, but no request can write one.

The system is the one of `Edits`, with requests that create rules beside those that change them. The
thresholds of the requests are `JSONFloat`s.
-/

namespace TinyProbe.Alerting

open TinyProbe.Run

variable {F : Type} [FiniteFloat F]

/-- The request with its threshold as a float64. -/
def RuleCreate.value (input : RuleCreate (JSONFloat F)) : RuleCreate F :=
  { serverID := input.serverID, metric := input.metric, operator := input.operator
    threshold := input.threshold.map Subtype.val, durationSeconds := input.durationSeconds
    repeatSeconds := input.repeatSeconds, enabled := input.enabled }

def RuleUpdate.value (update : RuleUpdate (JSONFloat F)) : RuleUpdate F :=
  { serverID := update.serverID, metric := update.metric, operator := update.operator
    threshold := update.threshold.map Subtype.val, durationSeconds := update.durationSeconds
    repeatSeconds := update.repeatSeconds, enabled := update.enabled }

/-- `Handler.CreateRule`; `known` is whether the server is found. -/
def Handler.createRule (db : Database F) (body : Option (RuleCreate F)) (now : Time)
    (known fails : Bool) : Except UpdateError (Rule F) × Database F :=
  match body with
  | none => (.error .body, db)
  | some input =>
    match ruleFromCreate input with
    | .error err => (.error (.repository err), db)
    | .ok rule =>
      if known = false then (.error .server, db)
      else
        let (result, db) := Repository.createRule db now rule fails
        (result.mapError .repository, db)

/-- The answers with a status of 400, 404 or 415. The others say that the database has failed. -/
def UpdateError.rejects : UpdateError → Bool
  | .body | .server | .repository .invalidInput | .repository .notFound => true
  | .repository .badRow | .repository .failed => false

/-! ## Normal form -/

/-- The metrics in percent. -/
def Metric.isPercentage : Metric → Bool
  | .cpuUsage | .memoryUsage | .diskUsage => true
  | _ => false

/-- What is promised of a stored rule. -/
structure NormalForm (rule : Rule F) : Prop where
  metric : validMetric rule.metric = true
  offline : rule.metric = .offline → rule.operator = .greaterThan ∧
    rule.threshold = Float64.ofNat 0 ∧ rule.durationSeconds = 0
  diskFree : rule.metric = .diskFreeBytes → rule.operator = .lessThan ∧
    Float64.lt (Float64.ofNat 0) rule.threshold = true
  percentage : rule.metric.isPercentage = true → rule.operator = .greaterThan ∧
    Float64.le (Float64.ofNat 0) rule.threshold = true ∧
      Float64.le rule.threshold (Float64.ofNat 100) = true
  duration : 0 ≤ rule.durationSeconds ∧ rule.durationSeconds ≤ 86400
  repeats : rule.repeatSeconds = 0 ∨ 300 ≤ rule.repeatSeconds ∧ rule.repeatSeconds ≤ 604800
  fixed : Normalized rule

section Form

variable {rule rule' : Rule F}

/-- What the checks return: of the metric's part, the server and the two numbers of seconds. -/
theorem normalizeRule_cases (h : normalizeRule rule = .ok rule') :
    validMetric rule.metric = true ∧ normalizeMetric rule = some rule' ∧
      0 ≤ rule'.durationSeconds ∧ rule'.durationSeconds ≤ 86400 ∧
        (rule'.repeatSeconds = 0 ∨ 300 ≤ rule'.repeatSeconds ∧ rule'.repeatSeconds ≤ 604800) := by
  unfold normalizeRule at h
  split at h
  next => cases h
  next hinput =>
    split at h
    next => cases h
    next fixed hfixed =>
      split at h
      next => cases h
      next hrange =>
        cases h
        refine ⟨?_, hfixed, by omega, by omega, by omega⟩
        exact Bool.eq_true_of_not_eq_false fun hfalse => hinput (Or.inr hfalse)

theorem finite_zero : FiniteFloat.finite (Float64.ofNat 0 : F) = true :=
  FiniteFloat.finite_ofNat 0 (by decide)

theorem finite_hundred : FiniteFloat.finite (Float64.ofNat 100 : F) = true :=
  FiniteFloat.finite_ofNat 100 (by decide)

/-- The checks keep a finite threshold, or set it to zero. -/
theorem finite_normalizeRule (h : normalizeRule rule = .ok rule')
    (hfinite : FiniteFloat.finite rule.threshold = true) :
    FiniteFloat.finite rule'.threshold = true := by
  obtain ⟨_, hmetric, _⟩ := normalizeRule_cases h
  unfold normalizeMetric at hmetric
  split at hmetric
  next =>
    split at hmetric
    next => cases hmetric
    next => cases hmetric; exact finite_zero
  next =>
    split at hmetric
    next => cases hmetric
    next => cases hmetric; exact hfinite
  next =>
    split at hmetric
    next => cases hmetric
    next => cases hmetric; exact hfinite

/-- **The fixed points of the checks are in normal form**, if their threshold is finite. -/
theorem normalForm_of_normalized (h : Normalized rule)
    (hfinite : FiniteFloat.finite rule.threshold = true) : NormalForm rule := by
  obtain ⟨hvalid, hmetric, hduration⟩ := normalizeRule_cases h
  unfold normalizeMetric at hmetric
  have hpercentage : rule.metric.isPercentage = true → ¬ (rule.operator ≠ .greaterThan ∨
      Float64.lt rule.threshold (Float64.ofNat 0) = true ∨
        Float64.lt (Float64.ofNat 100) rule.threshold = true) := by
    intro hp hfails
    cases hm : rule.metric with
    | offline => rw [hm] at hp; cases hp
    | diskFreeBytes => rw [hm] at hp; cases hp
    | _ =>
      rw [hm] at hmetric
      simp only [if_pos hfails, reduceCtorEq] at hmetric
  exact
    { metric := hvalid
      offline := fun hm => by
        rw [hm] at hmetric
        simp only at hmetric
        split at hmetric
        next => cases hmetric
        next =>
          have hfields := Option.some.inj hmetric
          exact ⟨by rw [← hfields], by rw [← hfields], by rw [← hfields]⟩
      diskFree := fun hm => by
        rw [hm] at hmetric
        simp only at hmetric
        split at hmetric
        next => cases hmetric
        next hok =>
          simp only [not_or, ne_eq, not_not, Bool.not_eq_true] at hok
          exact ⟨hok.1, FiniteFloat.lt_of_not_le _ _ hfinite finite_zero hok.2⟩
      percentage := fun hp => by
        have hok := hpercentage hp
        simp only [not_or, ne_eq, not_not, Bool.not_eq_true] at hok
        exact ⟨hok.1, FiniteFloat.le_of_not_lt _ _ hfinite finite_zero hok.2.1,
          FiniteFloat.le_of_not_lt _ _ finite_hundred hfinite hok.2.2⟩
      duration := ⟨hduration.1, hduration.2.1⟩
      repeats := hduration.2.2
      fixed := h }

end Form

/-! ## Requests that are rejected -/

omit [FiniteFloat F] in
/-- An insert that fails inserts nothing. -/
theorem createRule_error {db : Database F} {now : Time} {rule : Rule F} {fails : Bool}
    {err : RepositoryError} (h : (Repository.createRule db now rule fails).1 = .error err) :
    (Repository.createRule db now rule fails).2 = db := by
  unfold Repository.createRule at h ⊢
  split
  next => rfl
  next hvalid =>
    rw [if_neg hvalid] at h
    split
    next => rfl
    next hfails => rw [if_neg hfails] at h; cases h

omit [FiniteFloat F] in
/-- A rejected update has not got as far as its statement. -/
theorem updateRule_rejected {db : Database F} {now : Time} {rule : Rule F} {fails stateFails : Bool}
    {err : RepositoryError}
    (h : (Repository.updateRule db now rule fails stateFails).1 = .error err)
    (hrejects : (UpdateError.repository err).rejects = true) :
    (Repository.updateRule db now rule fails stateFails).2 = db := by
  unfold Repository.updateRule at h ⊢
  split
  next => rfl
  next hinput =>
    rw [if_neg hinput] at h
    split
    next => rfl
    next hfails =>
      rw [if_neg hfails] at h
      cases hrow : db.rule? rule.id with
      | none => rfl
      | some row =>
        -- the row is written, and only its status can fail
        rw [hrow] at h
        simp only at h ⊢
        have hid : ¬ rule.id < 1 := fun hlt => hinput (Or.inl hlt)
        unfold Repository.getState at h
        rw [if_neg hid] at h
        cases stateFails with
        | true => cases h; cases hrejects
        | false =>
          simp only [Bool.false_eq_true, if_false] at h
          cases hstate : (db.replaceRule rule.id (Repository.updatedRow now rule)).state? rule.id with
          | none => rw [hstate] at h; cases h
          | some state =>
            rw [hstate] at h
            simp only at h
            split at h
            next heq => cases h
            next heq => cases h
            next e hne heq =>
              cases h
              split at heq
              · cases heq
              · cases heq
                cases hrejects

namespace RuleForms

inductive Action (F : Type) [FiniteFloat F] where
  | create (body : Option (RuleCreate (JSONFloat F))) (now : Time) (known fails : Bool)
  | call (i : Nat) (id : Int) (body : Option (RuleUpdate (JSONFloat F)))
  | read (i : Nat) (fails stateFails : Bool)
  | write (i : Nat) (now : Time) (known fails stateFails : Bool)

def step (s : Edits F) : Action F → Edits F
  | .create body now known fails =>
    { s with db := (Handler.createRule s.db (body.map RuleCreate.value) now known fails).2 }
  | .call i id body => s.step (.call i id (body.map RuleUpdate.value))
  | .read i fails stateFails => s.step (.read i fails stateFails)
  | .write i now known fails stateFails => s.step (.write i now known fails stateFails)

/-- The answer of the request an action belongs to, once it has one. -/
def answer (s : Edits F) (a : Action F) : Option (Except UpdateError (Rule F)) :=
  let phaseOf (i : Nat) : Option (Except UpdateError (Rule F)) :=
    match (step s a).request? i with
    | some { phase := .answered outcome, .. } => some outcome
    | _ => none
  match a with
  | .create body now known fails =>
    some (Handler.createRule s.db (body.map RuleCreate.value) now known fails).1
  | .call i _ _ => phaseOf i
  | .read i _ _ => phaseOf i
  | .write i _ _ _ _ => phaseOf i

/-- The rows and what the requests are about to write are normalised and finite. -/
structure Inv (s : Edits F) : Prop where
  rows : RowsNormalized s.db
  finite : ∀ rule ∈ s.db.rules, FiniteFloat.finite rule.threshold = true
  bodies : ∀ i r update x, s.request? i = some r → r.body = some update →
    update.threshold = some x → FiniteFloat.finite x = true
  reads : ∀ i r current, s.request? i = some r → r.phase = .read current →
    FiniteFloat.finite current.threshold = true

section Steps

variable {s : Edits F} {i : Nat} {r : UpdateRequest F}

theorem finite_createRule {db : Database F} {rule : Rule F} {now : Time} {fails : Bool}
    (h : ∀ row ∈ db.rules, FiniteFloat.finite row.threshold = true)
    (hrule : FiniteFloat.finite rule.threshold = true) :
    ∀ row ∈ (Repository.createRule db now rule fails).2.rules,
      FiniteFloat.finite row.threshold = true := by
  rcases @Repository.createRule_db F db now rule fails with heq | ⟨_, heq⟩
  · rw [heq]
    exact h
  · rw [heq]
    intro row hrow
    rcases List.mem_append.mp hrow with hrow | hrow
    · exact h row hrow
    · rw [List.mem_singleton.mp hrow]
      exact hrule

theorem finite_updateRule {db : Database F} {rule : Rule F} {now : Time} {fails stateFails : Bool}
    (h : ∀ row ∈ db.rules, FiniteFloat.finite row.threshold = true)
    (hrule : FiniteFloat.finite rule.threshold = true) :
    ∀ row ∈ (Repository.updateRule db now rule fails stateFails).2.rules,
      FiniteFloat.finite row.threshold = true := by
  rcases @Repository.updateRule_db F db now rule fails stateFails with heq | ⟨_, heq⟩
  · rw [heq]
    exact h
  · rw [heq]
    intro row hrow
    obtain ⟨old, hold, rfl⟩ := List.mem_map.mp hrow
    split
    next => exact hrule
    next => exact h old hold

/-- A request that is created or goes on without a write. -/
theorem Inv.put (h : Inv s)
    (hbody : ∀ update x, r.body = some update → update.threshold = some x →
      FiniteFloat.finite x = true)
    (hread : ∀ current, r.phase = .read current → FiniteFloat.finite current.threshold = true) :
    Inv (s.put i r) where
  rows := h.rows
  finite := h.finite
  bodies j r' update x hj := by
    rw [Edits.request?_put] at hj
    split at hj
    next => cases hj; exact hbody update x
    next => exact h.bodies j r' update x hj
  reads j r' current hj := by
    rw [Edits.request?_put] at hj
    split at hj
    next => cases hj; exact hread current
    next => exact h.reads j r' current hj

/-- An answered request keeps its body and is about to write nothing. -/
theorem Inv.answer (h : Inv s) (hr : s.request? i = some r)
    (outcome : Except UpdateError (Rule F)) :
    Inv (s.put i { r with phase := .answered outcome }) :=
  h.put (fun update x => h.bodies i r update x hr) fun current hphase => by cases hphase

/-- New tables of the same requests. -/
theorem Inv.tables {db : Database F} {log : List (Edit F)} (h : Inv s) (hrows : RowsNormalized db)
    (hfinite : ∀ rule ∈ db.rules, FiniteFloat.finite rule.threshold = true) :
    Inv { s with db, log } where
  rows := hrows
  finite := hfinite
  bodies := h.bodies
  reads := h.reads

theorem finite_ruleFromCreate {input : RuleCreate (JSONFloat F)} {rule : Rule F}
    (h : ruleFromCreate input.value = .ok rule) : FiniteFloat.finite rule.threshold = true := by
  refine finite_normalizeRule h ?_
  show FiniteFloat.finite ((input.threshold.map Subtype.val).getD (Float64.ofNat 0)) = true
  cases input.threshold with
  | none => exact finite_zero
  | some x => exact x.2

theorem inv_create (h : Inv s) (body : Option (RuleCreate (JSONFloat F))) (now : Time)
    (known fails : Bool) : Inv (step s (.create body now known fails)) := by
  cases body with
  | none => exact h
  | some input =>
    show Inv { s with db := (Handler.createRule s.db (some input.value) now known fails).2 }
    unfold Handler.createRule
    simp only
    split
    next => exact h
    next rule hrule =>
      split
      next => exact h
      next =>
        exact h.tables (normalized_createRule h.rows (normalizeRule_idem hrule) now fails)
          (finite_createRule h.finite (finite_ruleFromCreate hrule))

theorem inv_write (h : Inv s) (hr : s.request? i = some r) {current : Rule F}
    (hphase : r.phase = .read current) (now : Time) (known fails stateFails : Bool) :
    Inv (s.write i r current now known fails stateFails) := by
  unfold Edits.write
  split
  next => exact h.answer hr _
  next update hbody =>
    split
    next => exact h.answer hr _
    next next hnext =>
      split
      next => exact h.answer hr _
      next =>
        have hmerged : FiniteFloat.finite (applyRuleUpdate current update).threshold = true := by
          show FiniteFloat.finite (update.threshold.getD current.threshold) = true
          cases hthreshold : update.threshold with
          | none => exact h.reads i r current hr hphase
          | some x => exact h.bodies i r update x hr hbody hthreshold
        exact (h.answer hr _).tables
          (normalized_updateRule h.rows (normalizeRule_idem hnext) now fails stateFails)
          (finite_updateRule h.finite (finite_normalizeRule hnext hmerged))

theorem inv_step (h : Inv s) (a : Action F) : Inv (step s a) := by
  cases a with
  | create body now known fails => exact inv_create h body now known fails
  | call i id body =>
    simp only [step, Edits.step]
    split
    next => exact h
    next =>
      refine h.put (fun update x hbody hx => ?_) fun current hphase => by cases hphase
      obtain ⟨input, _, rfl⟩ := Option.map_eq_some_iff.mp hbody
      obtain ⟨y, _, rfl⟩ := Option.map_eq_some_iff.mp hx
      exact y.2
  | read i fails stateFails =>
    simp only [step, Edits.step]
    split
    next => exact h
    next r hr =>
      split
      next =>
        split
        next => exact h.answer hr _
        next current hcurrent =>
          refine h.put (fun update x => h.bodies i r update x hr) fun current' hphase => ?_
          cases hphase
          exact h.finite _ (Database.rule?_mem (Edits.getRule_ok hcurrent))
      next => exact h
  | write i now known fails stateFails =>
    simp only [step, Edits.step]
    split
    next => exact h
    next r hr =>
      split
      next current hphase => exact inv_write h hr hphase now known fails stateFails
      next => exact h

theorem inv_start : Inv (Edits.start Database.empty : Edits F) where
  rows := normalized_empty
  finite _ h := absurd h List.not_mem_nil
  bodies i r update x h := by cases h
  reads i r current h := by cases h

/-- A rejected request to create a rule has created none. -/
theorem createRule_rejected {db : Database F} {body : Option (RuleCreate F)} {now : Time}
    {known fails : Bool} {err : UpdateError}
    (h : (Handler.createRule db body now known fails).1 = .error err) :
    (Handler.createRule db body now known fails).2 = db := by
  unfold Handler.createRule at h ⊢
  split
  next => rfl
  next input =>
    simp only at h
    split
    next => rfl
    next rule hrule =>
      rw [hrule] at h
      split
      next => rfl
      next hknown =>
        simp only [if_neg hknown] at h
        show (Repository.createRule db now rule fails).2 = db
        change (Repository.createRule db now rule fails).1.mapError UpdateError.repository = _ at h
        cases hresult : (Repository.createRule db now rule fails).1 with
        | ok row => rw [hresult] at h; cases h
        | error e => exact createRule_error hresult

/-- The answer of a write. -/
theorem request?_write {current : Rule F} {now : Time} {known fails stateFails : Bool} {j : Nat} :
    ∃ outcome, (s.write i r current now known fails stateFails).request? j =
        (if j = i then some { r with phase := .answered outcome } else s.request? j) ∧
      ∀ err, outcome = .error err → err.rejects = true →
        (s.write i r current now known fails stateFails).db = s.db := by
  unfold Edits.write
  split
  next => exact ⟨_, Edits.request?_put j, fun _ _ _ => rfl⟩
  next =>
    split
    next => exact ⟨_, Edits.request?_put j, fun _ _ _ => rfl⟩
    next next hnext =>
      split
      next => exact ⟨_, Edits.request?_put j, fun _ _ _ => rfl⟩
      next =>
        refine ⟨(Repository.updateRule s.db now next fails stateFails).1.mapError .repository,
          Edits.request?_put j, fun err herr hrejects => ?_⟩
        show (Repository.updateRule s.db now next fails stateFails).2 = s.db
        cases hresult : (Repository.updateRule s.db now next fails stateFails).1 with
        | ok rule => rw [hresult] at herr; cases herr
        | error e =>
          rw [hresult] at herr
          cases herr
          exact updateRule_rejected hresult hrejects

/-- **A rejected request changes no row.** -/
theorem rejected_step {a : Action F} {err : UpdateError} (h : answer s a = some (.error err))
    (hrejects : err.rejects = true) : (step s a).db = s.db := by
  cases a with
  | create body now known fails => exact createRule_rejected (Option.some.inj h)
  | call i id body =>
    simp only [step, Edits.step]
    split <;> rfl
  | read i fails stateFails =>
    simp only [step, Edits.step]
    split
    next => rfl
    next => split <;> [split; skip] <;> rfl
  | write i now known fails stateFails =>
    simp only [answer, step, Edits.step] at h ⊢
    split
    next => rfl
    next r hr =>
      rw [hr] at h
      simp only at h
      split
      next current hphase =>
        rw [hphase] at h
        simp only at h
        obtain ⟨outcome, hrequest, hdb⟩ :=
          @request?_write F _ s i r current now known fails stateFails i
        rw [hrequest, if_pos rfl] at h
        cases h
        exact hdb err rfl hrejects
      next => rfl

end Steps

/-- **Stored rules are in normal form** after every sequence of requests to create and to change
rules, however those interleave, and a rejected request changes none. Normalizing such a rule again
gives the rule itself. -/
theorem stored_normalForm (as : List (Action F)) :
    (∀ rule ∈ (run step (Edits.start Database.empty) as).db.rules, NormalForm rule) ∧
      ∀ a err, answer (run step (Edits.start Database.empty) as) a = some (.error err) →
        err.rejects = true →
          (step (run step (Edits.start Database.empty) as) a).db =
            (run step (Edits.start Database.empty) as).db := by
  have hinv : Inv (run step (Edits.start Database.empty : Edits F) as) :=
    run_invariant (fun (s : Edits F) a (h : Inv s) => inv_step h a) inv_start as
  refine ⟨fun rule hrule => ?_, fun a err h hrejects => rejected_step h hrejects⟩
  exact normalForm_of_normalized (hinv.rows rule hrule) (hinv.finite rule hrule)

end RuleForms

end TinyProbe.Alerting
