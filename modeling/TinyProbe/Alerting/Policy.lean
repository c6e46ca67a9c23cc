import TinyProbe.Alerting.StateMachine
import TinyProbe.Lib.Run

/-!
# The alerting policy

The state machine is stepped by a list of evaluations from the fresh state of a rule. The policy is
stated over the list alone: maximal runs of breached steps (`RunFrom`), how long a run has lasted
(`HeldFor`), the step that opens an episode (`Opens`), whether an episode is open (`IsOpen`), the
step that closes it (`Recovers`) and the reminders inside it (`Repeats`). None of these looks at a
state. `alert_policy` says that the notifications of the state machine are these steps and no
others, at every step of every list, whatever the clock does.

The invariant is `Tracks`: before step `k` an idle state means that step `k - 1` was calm, a pending
state carries the start of a run that has not lasted yet, and a firing state means that an episode
is open and carries the instant of the last notification.
-/

namespace TinyProbe.Alerting.Policy

open TinyProbe.Run

variable {F : Type}

/-- One evaluation: what the breach test answered, on which value, and the clock reading. -/
structure Step (F : Type) where
  breached : Bool
  value : F
  now : Time

/-! ## The policy, over the list of evaluations -/

section Spec

variable (steps : List (Step F))

def BreachedAt (k : Nat) : Prop := ∃ x, steps[k]? = some x ∧ x.breached = true

def CalmAt (k : Nat) : Prop := ∃ x, steps[k]? = some x ∧ x.breached = false

/-- `i` is the first step of the maximal run of breached steps that `k` belongs to. -/
structure RunFrom (i k : Nat) : Prop where
  le : i ≤ k
  breached : ∀ j, i ≤ j → j ≤ k → BreachedAt steps j
  maximal : ∀ j, j + 1 = i → ¬ BreachedAt steps j

/-- `t_k - t_i >= d`, in exact arithmetic. -/
def HeldFor (d : Duration) (i k : Nat) : Prop :=
  ∃ x y, steps[i]? = some x ∧ steps[k]? = some y ∧ d.toInt ≤ y.now.ns - x.now.ns

/-- `k` is the first step of its run at which the run has lasted `d`. -/
def Opens (d : Duration) (k : Nat) : Prop :=
  ∃ i, RunFrom steps i k ∧ HeldFor steps d i k ∧ ∀ j, i ≤ j → j < k → ¬ HeldFor steps d i j

/-- The steps before `k` end in a run in which an episode was opened. -/
def IsOpen (d : Duration) (k : Nat) : Prop :=
  ∃ j, j < k ∧ Opens steps d j ∧ ∀ m, j ≤ m → m < k → BreachedAt steps m

/-- `k` is the first calm step after a run in which an episode was opened. -/
def Recovers (d : Duration) (k : Nat) : Prop := CalmAt steps k ∧ IsOpen steps d k

end Spec

/-! ## The runs of the state machine -/

section Runs

variable (d r : Duration) (ruleID : Int) (steps : List (Step F))

/-- The input of `Evaluate` at one step. -/
def Step.input (s : State F) (x : Step F) : EvaluationInput F :=
  { state := s, breached := x.breached, currentValue := x.value, duration := d
    repeatInterval := r, now := x.now }

/-- The state step `k` starts from. -/
def stateBefore (k : Nat) : State F :=
  run (fun s x => (evaluate (Step.input d r s x)).state) (State.fresh ruleID) (steps.take k)

/-- What `Evaluate` returns at step `k`. -/
def resultAt (k : Nat) : Option (EvaluationResult F) :=
  steps[k]?.map fun x => evaluate (Step.input d r (stateBefore d r ruleID steps k) x)

/-- Step `k` notifies. -/
def NotifiedAt (k : Nat) : Prop :=
  ∃ res, resultAt d r ruleID steps k = some res ∧ res.notify = true

/-- Step `k` sends the firing notification that opens an episode. -/
def OpenedAt (k : Nat) : Prop :=
  ∃ res, resultAt d r ruleID steps k = some res ∧ res.notify = true ∧
    res.state.status = .firing ∧ (stateBefore d r ruleID steps k).status ≠ .firing

/-- Step `k` sends a firing notification inside an episode. -/
def RepeatedAt (k : Nat) : Prop :=
  ∃ res, resultAt d r ruleID steps k = some res ∧ res.notify = true ∧
    res.state.status = .firing ∧ (stateBefore d r ruleID steps k).status = .firing

/-- Step `k` sends a recovered notification. -/
def RecoveredAt (k : Nat) : Prop :=
  ∃ res, resultAt d r ruleID steps k = some res ∧ res.notify = true ∧
    res.state.status = .recovered

/-- `l` is the last step before `k` that notified. -/
structure LastNotified (l k : Nat) : Prop where
  lt : l < k
  notified : NotifiedAt d r ruleID steps l
  last : ∀ m, l < m → m < k → ¬ NotifiedAt d r ruleID steps m

/-- `k` is a breached step of an open episode, reminders are on, and the last notification is at
least the interval old. -/
def Repeats (k : Nat) : Prop :=
  BreachedAt steps k ∧ IsOpen steps d k ∧ 0 < r ∧
    ∃ l, LastNotified d r ruleID steps l k ∧ HeldFor steps r l k

end Runs

/-! ## Runs of breached steps -/

section Spec

variable {steps : List (Step F)} {d : Duration} {i i' j k : Nat} {x : Step F}

/-- A calm step is not breached. -/
theorem not_breachedAt_of_calm (hx : steps[k]? = some x) (hb : x.breached = false) :
    ¬ BreachedAt steps k := by
  rintro ⟨y, hy, hyb⟩
  rw [hx] at hy
  cases hy
  rw [hb] at hyb
  cases hyb

/-- A run of breached steps has one beginning. -/
theorem RunFrom.unique (h : RunFrom steps i k) (h' : RunFrom steps i' k) : i = i' := by
  -- the earlier start would put a breached step right before the later one
  rcases Nat.lt_trichotomy i i' with hlt | heq | hlt
  · exact absurd (h.breached (i' - 1) (by omega) (by have := h'.le; omega))
      (h'.maximal (i' - 1) (by omega))
  · exact heq
  · exact absurd (h'.breached (i - 1) (by omega) (by have := h.le; omega))
      (h.maximal (i - 1) (by omega))

/-- A run goes on as long as the steps are breached. -/
theorem RunFrom.extend (h : RunFrom steps i j) (hjk : j ≤ k)
    (hb : ∀ m, j ≤ m → m ≤ k → BreachedAt steps m) : RunFrom steps i k where
  le := h.le.trans hjk
  breached m him hmk := by
    rcases Nat.le_total m j with hmj | hjm
    · exact h.breached m him hmj
    · exact hb m hjm hmk
  maximal := h.maximal

/-- A breached step after a calm one begins a run. -/
theorem runFrom_self (hb : BreachedAt steps k) (hprev : ∀ j, j + 1 = k → ¬ BreachedAt steps j) :
    RunFrom steps k k where
  le := Nat.le_refl k
  breached j hkj hjk := by rwa [Nat.le_antisymm hjk hkj]
  maximal := hprev

/-- A step is no time after itself. -/
theorem heldFor_self (hx : steps[k]? = some x) : HeldFor steps d k k ↔ d ≤ 0 := by
  rw [Int64.le_iff_toInt_le, Int64.toInt_zero]
  constructor
  · rintro ⟨y, z, hy, hz, hle⟩
    rw [hx] at hy hz
    cases hy
    cases hz
    omega
  · exact fun hle => ⟨x, x, hx, hx, by omega⟩

/-- On the first step of a run, the episode opens exactly without a duration. -/
theorem opens_first (hx : steps[k]? = some x) (hb : x.breached = true)
    (hprev : ∀ j, j + 1 = k → ¬ BreachedAt steps j) : Opens steps d k ↔ d ≤ 0 := by
  have hrun := runFrom_self ⟨x, hx, hb⟩ hprev
  rw [← heldFor_self (d := d) hx]
  constructor
  · rintro ⟨i, hi, hheld, -⟩
    rwa [hi.unique hrun] at hheld
  · exact fun hheld => ⟨k, hrun, hheld, fun j hkj hjk => by omega⟩

/-- On a later step of a run that has not lasted yet, it opens exactly when the run has now. -/
theorem opens_later (hrun : RunFrom steps i k)
    (hnot : ∀ j, i ≤ j → j < k → ¬ HeldFor steps d i j) :
    Opens steps d k ↔ HeldFor steps d i k := by
  constructor
  · rintro ⟨i', hi', hheld, -⟩
    rwa [hi'.unique hrun] at hheld
  · exact fun hheld => ⟨i, hrun, hheld, hnot⟩

/-- After a calm step no episode is open. -/
theorem not_isOpen_of_calm (hprev : ∀ j, j + 1 = k → ¬ BreachedAt steps j) :
    ¬ IsOpen steps d k := by
  rintro ⟨j, hjk, -, hb⟩
  exact hprev (k - 1) (by omega) (hb (k - 1) (by omega) (by omega))

/-- While the run has not lasted, no episode is open. -/
theorem not_isOpen_of_waiting (hrun : RunFrom steps i k)
    (hnot : ∀ j, i ≤ j → j ≤ k → ¬ HeldFor steps d i j) : ¬ IsOpen steps d (k + 1) := by
  rintro ⟨j, hjk, ⟨i', hi', hheld, -⟩, hb⟩
  have hext := hi'.extend (k := k) (by omega) fun m hjm hmk => hb m hjm (by omega)
  rw [hext.unique hrun] at hheld
  exact hnot j (hrun.unique hext ▸ hi'.le) (by omega) hheld

/-- An open episode is not opened again. -/
theorem not_opens_of_isOpen (hopen : IsOpen steps d k) (hb : BreachedAt steps k) :
    ¬ Opens steps d k := by
  obtain ⟨j, hjk, ⟨i, hi, hheld, -⟩, hrest⟩ := hopen
  rintro ⟨i', hi', -, hnot⟩
  have hext : RunFrom steps i k := hi.extend (by omega) fun m hjm hmk => by
    rcases Nat.lt_or_eq_of_le hmk with hlt | rfl
    · exact hrest m hjm hlt
    · exact hb
  rw [hi'.unique hext] at hnot
  exact hnot j hi.le hjk hheld

/-- An open episode stays open at a breached step. -/
theorem IsOpen.succ (hopen : IsOpen steps d k) (hb : BreachedAt steps k) :
    IsOpen steps d (k + 1) := by
  obtain ⟨j, hjk, hopens, hrest⟩ := hopen
  refine ⟨j, by omega, hopens, fun m hjm hmk => ?_⟩
  rcases Nat.lt_or_eq_of_le (Nat.lt_succ_iff.mp hmk) with hlt | rfl
  · exact hrest m hjm hlt
  · exact hb

/-- An episode that opens is open from then on. -/
theorem Opens.isOpen (h : Opens steps d k) : IsOpen steps d (k + 1) := by
  obtain ⟨i, hi, hheld, hnot⟩ := h
  refine ⟨k, Nat.lt_succ_self k, ⟨i, hi, hheld, hnot⟩, fun m hkm hmk => ?_⟩
  rw [show m = k by omega]
  exact hi.breached k hi.le (Nat.le_refl k)

end Spec

/-! ## The state machine follows the policy -/

section Follow

variable {d r : Duration} {ruleID : Int} {steps : List (Step F)} {k : Nat} {x : Step F}

private theorem stateBefore_succ (hx : steps[k]? = some x) :
    stateBefore d r ruleID steps (k + 1) =
      (evaluate (Step.input d r (stateBefore d r ruleID steps k) x)).state := by
  unfold stateBefore
  rw [List.take_add_one, hx]
  exact run_snoc _ _

variable (d r ruleID steps) in
/-- What the state before step `k` says of the steps before it. -/
inductive Tracks (k : Nat) (s : State F) : Prop
  /-- The last step was calm, or there is none. -/
  | idle (hidle : s.status.idle = true) (hprev : ∀ j, j + 1 = k → ¬ BreachedAt steps j)
  /-- The last step belongs to a run, begun at `i`, that has not lasted the duration. -/
  | waiting (i j : Nat) (x : Step F) (hk : k = j + 1) (hrun : RunFrom steps i j)
      (hnot : ∀ m, i ≤ m → m ≤ j → ¬ HeldFor steps d i m) (hd : 0 < d)
      (hs : s.status = .pending) (hx : steps[i]? = some x) (hp : s.pendingSince = some x.now)
  /-- An episode is open and `l` is the last step that notified. -/
  | firing (l : Nat) (x : Step F) (hopen : IsOpen steps d k)
      (hl : LastNotified d r ruleID steps l k) (hs : s.status = .firing)
      (hx : steps[l]? = some x) (hn : s.lastNotifiedAt = some x.now)

variable (d r ruleID steps) in
/-- Step `k` notifies as the policy says. -/
structure Follows (k : Nat) : Prop where
  opened : OpenedAt d r ruleID steps k ↔ Opens steps d k
  recovered : RecoveredAt d r ruleID steps k ↔ Recovers steps d k
  repeated : RepeatedAt d r ruleID steps k ↔ Repeats d r ruleID steps k

private theorem not_recovers_of_breached (hx : steps[k]? = some x) (hb : x.breached = true) :
    ¬ Recovers steps d k := by
  rintro ⟨⟨y, hy, hyb⟩, -⟩
  exact not_breachedAt_of_calm hy hyb ⟨x, hx, hb⟩

private theorem not_opens_of_calm (hx : steps[k]? = some x) (hb : x.breached = false) :
    ¬ Opens steps d k := by
  rintro ⟨i, hi, -, -⟩
  exact not_breachedAt_of_calm hx hb (hi.breached k hi.le (Nat.le_refl k))

private theorem not_repeats_of_calm (hx : steps[k]? = some x) (hb : x.breached = false) :
    ¬ Repeats d r ruleID steps k :=
  fun h => not_breachedAt_of_calm hx hb h.1

/-- There is one last step that notified. -/
theorem LastNotified.unique {l l' : Nat} (h : LastNotified d r ruleID steps l k)
    (h' : LastNotified d r ruleID steps l' k) : l = l' := by
  rcases Nat.lt_trichotomy l l' with hlt | heq | hlt
  · exact absurd h'.notified (h.last l' hlt h'.lt)
  · exact heq
  · exact absurd h.notified (h'.last l hlt h.lt)

/-- After a calm step the tracked state is idle. -/
theorem Tracks.of_calm {s : State F} (hx : steps[k]? = some x) (hb : x.breached = false)
    (hidle : s.status.idle = true) : Tracks d r ruleID steps (k + 1) s :=
  .idle hidle fun j hj => by
    rw [Nat.succ.inj hj]
    exact not_breachedAt_of_calm hx hb

/-- After a notifying step of an open episode, that step is the last one that notified. -/
theorem Tracks.of_notified {s : State F} (hx : steps[k]? = some x)
    (hn : NotifiedAt d r ruleID steps k) (hopen : IsOpen steps d (k + 1))
    (hs : s.status = .firing) (hl : s.lastNotifiedAt = some x.now) :
    Tracks d r ruleID steps (k + 1) s :=
  .firing k x hopen ⟨Nat.lt_succ_self k, hn, fun m hkm hmk => by omega⟩ hs hx hl

section Step

variable {s : State F} (hx : steps[k]? = some x) (hsk : stateBefore d r ruleID steps k = s)
include hx hsk

private theorem resultAt_eq :
    resultAt d r ruleID steps k = some (evaluate (Step.input d r s x)) := by
  rw [resultAt, hx, hsk, Option.map_some]

private theorem notifiedAt_iff :
    NotifiedAt d r ruleID steps k ↔ (evaluate (Step.input d r s x)).notify = true := by
  simp only [NotifiedAt, resultAt_eq hx hsk, Option.some.injEq, exists_eq_left']

private theorem openedAt_iff :
    OpenedAt d r ruleID steps k ↔ (evaluate (Step.input d r s x)).notify = true ∧
      (evaluate (Step.input d r s x)).state.status = .firing ∧ s.status ≠ .firing := by
  simp only [OpenedAt, resultAt_eq hx hsk, hsk, Option.some.injEq, exists_eq_left']

private theorem repeatedAt_iff :
    RepeatedAt d r ruleID steps k ↔ (evaluate (Step.input d r s x)).notify = true ∧
      (evaluate (Step.input d r s x)).state.status = .firing ∧ s.status = .firing := by
  simp only [RepeatedAt, resultAt_eq hx hsk, hsk, Option.some.injEq, exists_eq_left']

private theorem recoveredAt_iff :
    RecoveredAt d r ruleID steps k ↔ (evaluate (Step.input d r s x)).notify = true ∧
      (evaluate (Step.input d r s x)).state.status = .recovered := by
  simp only [RecoveredAt, resultAt_eq hx hsk, Option.some.injEq, exists_eq_left']

/-- A step that does not notify follows the policy where the policy has none to send. -/
theorem Follows.silent (hn : (evaluate (Step.input d r s x)).notify = false)
    (ho : ¬ Opens steps d k) (hrec : ¬ Recovers steps d k)
    (hrep : ¬ Repeats d r ruleID steps k) : Follows d r ruleID steps k where
  opened := by simp only [openedAt_iff hx hsk, hn, ho, Bool.false_eq_true, false_and]
  recovered := by simp only [recoveredAt_iff hx hsk, hn, hrec, Bool.false_eq_true, false_and]
  repeated := by simp only [repeatedAt_iff hx hsk, hn, hrep, Bool.false_eq_true, false_and]

/-- The step that opens an episode, from a state that is not firing. -/
theorem follow_opening (hb : x.breached = true) (hopens : Opens steps d k)
    (hclosed : ¬ IsOpen steps d k) (hs : s.status ≠ .firing)
    (hst : (evaluate (Step.input d r s x)).state.status = .firing)
    (hn : (evaluate (Step.input d r s x)).notify = true)
    (hl : (evaluate (Step.input d r s x)).state.lastNotifiedAt = some x.now) :
    Follows d r ruleID steps k ∧
      Tracks d r ruleID steps (k + 1) (evaluate (Step.input d r s x)).state := by
  refine ⟨⟨?_, ?_, ?_⟩,
    .of_notified hx ((notifiedAt_iff hx hsk).mpr hn) hopens.isOpen hst hl⟩
  · simp only [openedAt_iff hx hsk, hn, hst, hs, hopens, ne_eq, not_false_eq_true, and_self]
  · simp only [recoveredAt_iff hx hsk, hst, not_recovers_of_breached hx hb, reduceCtorEq,
      and_false]
  · simp only [repeatedAt_iff hx hsk, hs, and_false, false_iff]
    exact fun h => hclosed h.2.1

/-- From an idle state a calm step does nothing; a breach begins a run, and opens an episode if
there is no duration to wait. -/
theorem follow_idle (hidle : s.status.idle = true)
    (hprev : ∀ j, j + 1 = k → ¬ BreachedAt steps j) :
    Follows d r ruleID steps k ∧
      Tracks d r ruleID steps (k + 1) (evaluate (Step.input d r s x)).state := by
  have hclosed : ¬ IsOpen steps d k := not_isOpen_of_calm hprev
  have hnrep : ¬ Repeats d r ruleID steps k := fun h => hclosed h.2.1
  cases hb : x.breached with
  | false =>
    obtain ⟨hst, hn⟩ := @evaluate_idle_calm _ (Step.input d r s x) hidle hb
    exact ⟨.silent hx hsk hn (not_opens_of_calm hx hb) (fun h => hclosed h.2) hnrep,
      .of_calm hx hb (by rw [hst]; rfl)⟩
  | true =>
    by_cases hd : d ≤ 0
    · obtain ⟨hst, hn, -, hl⟩ := @evaluate_idle_fire _ (Step.input d r s x) hidle hb hd
      have hnf : s.status ≠ .firing := fun h => by rw [h] at hidle; cases hidle
      exact follow_opening hx hsk hb ((opens_first hx hb hprev).mpr hd) hclosed hnf hst hn hl
    · have hpos : 0 < d := Int64.not_le.mp hd
      obtain ⟨hst, hn, hp⟩ := @evaluate_idle_wait _ (Step.input d r s x) hidle hb hpos
      refine ⟨.silent hx hsk hn (fun h => hd ((opens_first hx hb hprev).mp h))
        (not_recovers_of_breached hx hb) hnrep, ?_⟩
      refine .waiting k k x rfl (runFrom_self ⟨x, hx, hb⟩ hprev) (fun m hkm hmk => ?_) hpos hst hx hp
      rw [Nat.le_antisymm hmk hkm, heldFor_self hx]
      exact hd

/-- A pending rule waits until its run has lasted the duration, and then it opens; a calm step ends
the run. -/
theorem follow_waiting {i j : Nat} {y : Step F} (hk : k = j + 1) (hrun : RunFrom steps i j)
    (hnot : ∀ m, i ≤ m → m ≤ j → ¬ HeldFor steps d i m) (hd : 0 < d)
    (hs : s.status = .pending) (hy : steps[i]? = some y) (hp : s.pendingSince = some y.now) :
    Follows d r ruleID steps k ∧
      Tracks d r ruleID steps (k + 1) (evaluate (Step.input d r s x)).state := by
  have hclosed : ¬ IsOpen steps d k := hk ▸ not_isOpen_of_waiting hrun hnot
  have hnrep : ¬ Repeats d r ruleID steps k := fun h => hclosed h.2.1
  cases hb : x.breached with
  | false =>
    obtain ⟨hst, hn⟩ := @evaluate_pending_calm _ (Step.input d r s x) hs hb
    exact ⟨.silent hx hsk hn (not_opens_of_calm hx hb) (fun h => hclosed h.2) hnrep,
      .of_calm hx hb (by rw [hst]; rfl)⟩
  | true =>
    have hext : RunFrom steps i k := hrun.extend (by omega) fun m hjm hmk => by
      rcases Nat.lt_or_eq_of_le hmk with hlt | rfl
      · exact hrun.breached m (hrun.le.trans hjm) (by omega)
      · exact ⟨x, hx, hb⟩
    have hbefore : ∀ m, i ≤ m → m < k → ¬ HeldFor steps d i m :=
      fun m him hmk => hnot m him (by omega)
    -- the test of the code is the test of the policy
    have hheld : HeldFor steps d i k ↔ ¬ x.now.sub y.now < d := by
      rw [Int64.not_lt, Time.le_sub_iff hd]
      constructor
      · rintro ⟨y', x', hy', hx', hle⟩
        rw [hy] at hy'
        rw [hx] at hx'
        cases hy'
        cases hx'
        exact hle
      · exact fun hle => ⟨y, x, hy, hx, hle⟩
    by_cases hlt : x.now.sub y.now < d
    · obtain ⟨hst, hn, hp'⟩ := @evaluate_pending_wait _ (Step.input d r s x) hs hb _ hp hlt
      have hno : ¬ HeldFor steps d i k := fun h => hheld.mp h hlt
      refine ⟨.silent hx hsk hn (fun h => hno ((opens_later hext hbefore).mp h))
        (not_recovers_of_breached hx hb) hnrep, ?_⟩
      refine .waiting i k y rfl hext (fun m him hmk => ?_) hd hst hy hp'
      rcases Nat.lt_or_eq_of_le hmk with hlt' | rfl
      · exact hbefore m him hlt'
      · exact hno
    · obtain ⟨hst, hn, -, hl⟩ := @evaluate_pending_fire _ (Step.input d r s x) hs hb _ hp hlt
      exact follow_opening hx hsk hb ((opens_later hext hbefore).mpr (hheld.mpr hlt)) hclosed
        (by rw [hs]; exact nofun) hst hn hl

/-- An open episode repeats when the last notification is an interval old, and a calm step ends it.
-/
theorem follow_firing {l : Nat} {y : Step F} (hopen : IsOpen steps d k)
    (hl : LastNotified d r ruleID steps l k) (hs : s.status = .firing)
    (hy : steps[l]? = some y) (hln : s.lastNotifiedAt = some y.now) :
    Follows d r ruleID steps k ∧
      Tracks d r ruleID steps (k + 1) (evaluate (Step.input d r s x)).state := by
  cases hb : x.breached with
  | false =>
    obtain ⟨hst, hn, -⟩ := @evaluate_firing_calm _ (Step.input d r s x) hs hb
    refine ⟨⟨?_, ?_, ?_⟩, .of_calm hx hb (by rw [hst]; rfl)⟩
    · simp only [openedAt_iff hx hsk, hs, not_opens_of_calm hx hb, ne_eq, not_true_eq_false,
        and_false]
    · simp only [recoveredAt_iff hx hsk, hn, hst, and_self, true_iff]
      exact ⟨⟨x, hx, hb⟩, hopen⟩
    · simp only [repeatedAt_iff hx hsk, hst, not_repeats_of_calm hx hb, reduceCtorEq, false_and,
        and_false]
  | true =>
    obtain ⟨hst, -, hn, hl'⟩ := @evaluate_firing_breached _ (Step.input d r s x) hs hb
    -- the repeat test reads the instant of the last notification
    have hdue : repeatDue s.lastNotifiedAt x.now r = true ↔ r ≤ x.now.sub y.now := by
      rw [hln]
      exact decide_eq_true_iff
    have hrep : (evaluate (Step.input d r s x)).notify = true ↔ Repeats d r ruleID steps k := by
      refine hn.trans ⟨?_, ?_⟩
      · rintro ⟨hr, hd⟩
        exact ⟨⟨x, hx, hb⟩, hopen, hr, l, hl, y, x, hy, hx, (Time.le_sub_iff hr).mp (hdue.mp hd)⟩
      · rintro ⟨-, -, hr, l', hl', y', x', hy', hx', hle⟩
        rw [hl'.unique hl, hy] at hy'
        rw [hx] at hx'
        cases hy'
        cases hx'
        exact ⟨hr, hdue.mpr ((Time.le_sub_iff hr).mpr hle)⟩
    have hopen' : IsOpen steps d (k + 1) := hopen.succ ⟨x, hx, hb⟩
    refine ⟨⟨?_, ?_, ?_⟩, ?_⟩
    · simp only [openedAt_iff hx hsk, hs, not_opens_of_isOpen hopen ⟨x, hx, hb⟩, ne_eq,
        not_true_eq_false, and_false]
    · simp only [recoveredAt_iff hx hsk, hst, not_recovers_of_breached hx hb, reduceCtorEq,
        and_false]
    · simp only [repeatedAt_iff hx hsk, hst, hs, and_true, hrep]
    · cases hnot : (evaluate (Step.input d r s x)).notify with
      | true =>
        refine .of_notified hx ((notifiedAt_iff hx hsk).mpr hnot) hopen' hst ?_
        rw [hl', if_pos hnot]
        rfl
      | false =>
        refine .firing l y hopen' ⟨hl.lt.trans (Nat.lt_succ_self k), hl.notified, ?_⟩ hst hy ?_
        · intro m hlm hmk
          rcases Nat.lt_or_eq_of_le (Nat.lt_succ_iff.mp hmk) with hlt | rfl
          · exact hl.last m hlm hlt
          · rw [notifiedAt_iff hx hsk, hnot]
            exact nofun
        · rw [hl', if_neg (by rw [hnot]; exact nofun)]
          exact hln

end Step

/-- One step of a tracked state notifies as the policy says and is tracked again. -/
theorem Tracks.step (h : Tracks d r ruleID steps k (stateBefore d r ruleID steps k))
    (hx : steps[k]? = some x) :
    Follows d r ruleID steps k ∧
      Tracks d r ruleID steps (k + 1) (stateBefore d r ruleID steps (k + 1)) := by
  rw [stateBefore_succ hx]
  cases h with
  | idle hidle hprev => exact follow_idle hx rfl hidle hprev
  | waiting i j y hk hrun hnot hd hs hy hp => exact follow_waiting hx rfl hk hrun hnot hd hs hy hp
  | firing l y hopen hl hs hy hn => exact follow_firing hx rfl hopen hl hs hy hn

/-- Every state of a run from the fresh state is tracked. -/
theorem tracks (hk : k ≤ steps.length) :
    Tracks d r ruleID steps k (stateBefore d r ruleID steps k) := by
  induction k with
  | zero => exact .idle rfl fun j hj => by omega
  | succ k ih =>
    have hx : steps[k]? = some steps[k] := List.getElem?_eq_getElem (by omega)
    exact ((ih (by omega)).step hx).2

/-- **The state machine implements the policy on every run.** At every step of every list of
evaluations from the fresh state, for every duration and repeat interval and whatever the clock
readings: the opening, recovered and repeated notifications are those of the policy, and there is
no other notification. -/
theorem alert_policy (d r : Duration) (ruleID : Int) (steps : List (Step F)) (k : Nat) :
    (OpenedAt d r ruleID steps k ↔ Opens steps d k) ∧
      (RecoveredAt d r ruleID steps k ↔ Recovers steps d k) ∧
      (RepeatedAt d r ruleID steps k ↔ Repeats d r ruleID steps k) ∧
      (NotifiedAt d r ruleID steps k ↔ OpenedAt d r ruleID steps k ∨
        RecoveredAt d r ruleID steps k ∨ RepeatedAt d r ruleID steps k) := by
  cases hx : steps[k]? with
  | none =>
    have hnone : resultAt d r ruleID steps k = none := by rw [resultAt, hx, Option.map_none]
    have hnb : ¬ BreachedAt steps k := fun ⟨x, hx', _⟩ => by rw [hx] at hx'; cases hx'
    simp only [OpenedAt, RecoveredAt, RepeatedAt, NotifiedAt, hnone, reduceCtorEq, false_and,
      exists_false, false_iff, or_self, and_true]
    refine ⟨fun ⟨i, hi, _⟩ => hnb (hi.breached k hi.le (Nat.le_refl k)), ?_, fun h => hnb h.1⟩
    rintro ⟨⟨x, hx', -⟩, -⟩
    rw [hx] at hx'
    cases hx'
  | some x =>
    obtain ⟨hlen, -⟩ := List.getElem?_eq_some_iff.mp hx
    obtain ⟨hopened, hrecovered, hrepeated⟩ := ((tracks (Nat.le_of_lt hlen)).step hx).1
    refine ⟨hopened, hrecovered, hrepeated, ?_⟩
    rw [notifiedAt_iff hx rfl, openedAt_iff hx rfl, recoveredAt_iff hx rfl, repeatedAt_iff hx rfl]
    constructor
    · intro hn
      rcases status_of_notify hn with hst | hst
      · by_cases hs : (stateBefore d r ruleID steps k).status = .firing
        · exact Or.inr (Or.inr ⟨hn, hst, hs⟩)
        · exact Or.inl ⟨hn, hst, hs⟩
      · exact Or.inr (Or.inl ⟨hn, hst⟩)
    · rintro (⟨hn, -⟩ | ⟨hn, -⟩ | ⟨hn, -⟩) <;> exact hn

end Follow

end TinyProbe.Alerting.Policy
