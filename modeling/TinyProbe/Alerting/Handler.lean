import TinyProbe.Alerting.Evaluator

/-!
# What the rule handlers admit

`normalizeRule` stands between the API and the table: a rule is stored only after it, so the rows
are its fixed points (`normalizeRule_idem`, `normalized_createRule`, `normalized_updateRule`). It
refuses or fixes everything but the server, the switch and the repeat of an offline rule, which
leaves an offline rule no choice of when it is breached: by every offline snapshot and by no online
one, at once (`breached_offline_iff`, `durationForRule_offline`).
-/

namespace TinyProbe.Alerting

open Live

variable {F : Type} [Float64 F]

/-- The checks of one metric, and the fields they set. -/
def normalizeMetric (rule : Rule F) : Option (Rule F) :=
  match rule.metric with
  | .offline =>
    if rule.operator ≠ .other "" ∧ rule.operator ≠ .greaterThan ∨
        Float64.beq rule.threshold (Float64.ofNat 0) = false then none
    else
      some { rule with
        operator := .greaterThan, threshold := Float64.ofNat 0, durationSeconds := 0 }
  | .diskFreeBytes =>
    if rule.operator ≠ .lessThan ∨ Float64.le rule.threshold (Float64.ofNat 0) = true then none
    else some rule
  | _ =>
    if rule.operator ≠ .greaterThan ∨ Float64.lt rule.threshold (Float64.ofNat 0) = true ∨
        Float64.lt (Float64.ofNat 100) rule.threshold = true then none
    else some rule

/-- `normalizeRule`. -/
def normalizeRule (rule : Rule F) : Except RepositoryError (Rule F) :=
  if rule.serverID < 1 ∨ validMetric rule.metric = false then .error .invalidInput
  else
    match normalizeMetric rule with
    | none => .error .invalidInput
    | some rule =>
      if rule.durationSeconds < 0 ∨ 86400 < rule.durationSeconds ∨ rule.repeatSeconds < 0 ∨
          604800 < rule.repeatSeconds ∨ rule.repeatSeconds ≠ 0 ∧ rule.repeatSeconds < 300 then
        .error .invalidInput
      else .ok rule

/-- `ruleCreate`: the fields of the request; a missing one is `none`. -/
structure RuleCreate (F : Type) where
  serverID : Int
  metric : Metric
  operator : Option Operator
  threshold : Option F
  durationSeconds : Option Int
  repeatSeconds : Option Int
  enabled : Option Bool

/-- `ruleFromCreate`. -/
def ruleFromCreate (input : RuleCreate F) : Except RepositoryError (Rule F) :=
  normalizeRule
    { id := 0, serverID := input.serverID, metric := input.metric
      operator := input.operator.getD (.other "")
      threshold := input.threshold.getD (Float64.ofNat 0)
      durationSeconds := input.durationSeconds.getD 300
      repeatSeconds := input.repeatSeconds.getD 0
      enabled := input.enabled.getD true
      createdAt := .zero, updatedAt := .zero }

/-- The rule is as `normalizeRule` leaves it. -/
def Normalized (rule : Rule F) : Prop := normalizeRule rule = .ok rule

section Laws

variable {rule rule' : Rule F}

/-- What the checks of a metric return stands them again. -/
theorem normalizeMetric_idem (h : normalizeMetric rule = some rule') :
    normalizeMetric rule' = some rule' ∧ rule'.metric = rule.metric ∧
      rule'.serverID = rule.serverID := by
  unfold normalizeMetric at h
  cases hm : rule.metric with
  | offline =>
    rw [hm] at h
    simp only at h
    split at h
    next => cases h
    next =>
      cases h
      refine ⟨?_, rfl, rfl⟩
      simp only [normalizeMetric, ne_eq, not_true_eq_false, and_false, Float64.zero_beq_zero,
        Bool.true_eq_false, or_self, if_false]
  | _ =>
    rw [hm] at h
    simp only at h
    split at h
    next => cases h
    next hok =>
      cases h
      refine ⟨?_, hm, rfl⟩
      simp only [normalizeMetric, hm, if_neg hok]

/-- **A normalised rule is a fixed point.** -/
theorem normalizeRule_idem (h : normalizeRule rule = .ok rule') : Normalized rule' := by
  unfold normalizeRule at h
  split at h
  next => cases h
  next hid =>
    split at h
    next => cases h
    next fixed hmetric =>
      split at h
      next => cases h
      next hrange =>
        cases h
        obtain ⟨hagain, hm, hs⟩ := normalizeMetric_idem hmetric
        simp only [Normalized, normalizeRule, hm, hs, if_neg hid, hagain, if_neg hrange]

/-- Nothing the checks read or set is in the columns the table fills in. -/
theorem Normalized.row (h : Normalized rule) (id : Int) (createdAt updatedAt : Time) :
    Normalized { rule with id, createdAt, updatedAt } := by
  have hrow : ∀ fixed, normalizeMetric rule = some fixed →
      normalizeMetric { rule with id, createdAt, updatedAt } =
        some { fixed with id, createdAt, updatedAt } := fun fixed hfixed => by
    unfold normalizeMetric at hfixed ⊢
    simp only
    split at hfixed <;> split at hfixed <;> cases hfixed <;> simp_all only [if_false]
  unfold Normalized normalizeRule at h ⊢
  split at h
  next => cases h
  next hid =>
    rw [if_neg hid]
    split at h
    next => cases h
    next fixed hfixed =>
      split at h
      next => cases h
      next hrange =>
        cases h
        simp only [hrow _ hfixed, if_neg hrange]

/-- The rows of a table the handlers write. -/
def RowsNormalized (db : Database F) : Prop := ∀ rule ∈ db.rules, Normalized rule

theorem normalized_empty : RowsNormalized (Database.empty : Database F) :=
  fun _ h => absurd h List.not_mem_nil

theorem normalized_createRule {db : Database F} (h : RowsNormalized db) (hrule : Normalized rule)
    (now : Time) (fails : Bool) : RowsNormalized (Repository.createRule db now rule fails).2 := by
  rcases @Repository.createRule_db F db now rule fails with heq | ⟨_, heq⟩
  · rw [heq]
    exact h
  · rw [heq]
    intro row hrow
    rcases List.mem_append.mp hrow with hrow | hrow
    · exact h row hrow
    · rw [List.mem_singleton.mp hrow]
      exact hrule.row _ _ _

theorem normalized_updateRule {db : Database F} (h : RowsNormalized db) (hrule : Normalized rule)
    (now : Time) (fails stateFails : Bool) :
    RowsNormalized (Repository.updateRule db now rule fails stateFails).2 := by
  rcases @Repository.updateRule_db F db now rule fails stateFails with heq | ⟨_, heq⟩
  · rw [heq]
    exact h
  · rw [heq]
    intro row hrow
    obtain ⟨old, hold, rfl⟩ := List.mem_map.mp hrow
    split
    next => exact hrule.row _ _ _
    next => exact h old hold

/-! ## Offline rules -/

/-- What is left of an offline rule. -/
theorem Normalized.offline (h : Normalized rule) (hm : rule.metric = .offline) :
    rule.operator = .greaterThan ∧ rule.threshold = Float64.ofNat 0 ∧
      0 ≤ rule.repeatSeconds ∧ rule.repeatSeconds ≤ 604800 := by
  unfold Normalized normalizeRule at h
  split at h
  next => cases h
  next =>
    split at h
    next => cases h
    next fixed hfixed =>
      split at h
      next => cases h
      next hrange =>
        cases h
        unfold normalizeMetric at hfixed
        rw [hm] at hfixed
        simp only at hfixed
        split at hfixed
        next => cases hfixed
        next =>
          have hfields := Option.some.inj hfixed
          refine ⟨?_, ?_, by omega, by omega⟩
          · rw [← hfields]
          · rw [← hfields]

/-- **An offline rule is breached by offline snapshots**, and by no other. -/
theorem breached_offline_iff (h : Normalized rule) (hm : rule.metric = .offline)
    (event : Live.Event F) : breachedBy event rule = !event.snapshot.online := by
  obtain ⟨hop, hth, _⟩ := h.offline hm
  rw [breachedBy, breached, hop, hth, hm, metricValue]
  cases event.snapshot.online with
  | true => exact Float64.not_zero_lt_zero
  | false => exact Float64.zero_lt_one

omit [Float64 F] in
@[simp] theorem durationForRule_offline (hm : rule.metric = .offline) :
    durationForRule rule = 0 := if_pos hm

end Laws

end TinyProbe.Alerting
