import TinyProbe.Alerting.Dispatcher
import TinyProbe.Db.AlertView

/-!
# The log of attempts

`dispatch` records every attempt it makes, in `webhook_attempts` and in the outcome it returns. The
two workers of the dispatcher call it for the jobs of the queue, and any number of webhook tests call
it by `DispatchNow`, all of them on the tables that the services work on, too. `Dispatcher` leaves
the attempts out; here they are put beside it, and each step takes the step of the `Dispatcher` with
it.

The attempts of one call are a `Course`: they are numbered from 1, at most three, with the delays
between them, and only the last one may be a success.

An error of `RenderTemplate` comes with the text that `limitAttemptError` leaves of it.
-/

namespace TinyProbe.Db

/-- `RecordAttempt` -/
def Statement.addsAttempt {D F : Type} : Statement D F → Bool
  | .insertAttempt _ => true
  | _ => false

namespace Tables

section Attempts

variable {D F : Type} [DecidableEq D] {t t' : Tables D F}

/-- Inserting another row adds no attempt. -/
private theorem attempts_insert {row : Row D F} (hrow : row.attempt? = none)
    (h : t.insert row = some t') : t'.attempts = t.attempts := by
  obtain ⟨rows, hrows, rfl⟩ := Option.map_eq_some_iff.mp h
  obtain ⟨-, -, rfl⟩ := Schema.insert_eq_some.mp hrows
  simp [attempts, hrow]

/-- Inserting another row under a new id adds no attempt. -/
private theorem attempts_insertSerial {table : Serial} {row : Int → Row D F}
    (hrow : ∀ id, (row id).attempt? = none) (h : t.insertSerial table row = some t') :
    t'.attempts = t.attempts := by
  obtain ⟨rows, hrows, rfl⟩ := Option.map_eq_some_iff.mp h
  obtain ⟨-, -, rfl⟩ := Schema.insert_eq_some.mp hrows
  simp [attempts, hrow]

/-- A replacement that changes no attempt leaves them all. -/
private theorem attempts_replace {k : Key D} {f : Row D F → Row D F}
    (hf : ∀ row, (f row).attempt? = row.attempt?) (h : t.replace k f = some t') :
    t'.attempts = t.attempts := by
  obtain ⟨rows, hrows, rfl⟩ := Option.map_eq_some_iff.mp h
  obtain ⟨rfl, -⟩ := Schema.replace_eq_some.mp hrows
  exact filterMap_replace _ fun row _ => hf row

/-- An upsert of another row leaves the attempts. -/
private theorem attempts_upsert {row : Row D F} {f : Row D F → Row D F} (hrow : row.attempt? = none)
    (hf : ∀ row, (f row).attempt? = row.attempt?) (h : t.upsert row f = some t') :
    t'.attempts = t.attempts := by
  unfold upsert at h
  split at h
  next => exact attempts_replace hf h
  next => exact attempts_insert hrow h

/-- A deletion takes attempts away and leaves the others in their order. -/
private theorem attempts_delete (t : Tables D F) (p : Row D F → Bool) :
    (t.delete p).attempts.Sublist t.attempts :=
  (Schema.delete_sublist (S := schema D F) p t.rows).filterMap _

/-- The other statements add no attempt. -/
theorem attempts_exec {statement : Statement D F} (hother : statement.addsAttempt = false)
    (h : t.exec statement = some t') : t'.attempts.Sublist t.attempts := by
  cases statement with
  | insertAdmin username passwordHash now => rw [attempts_insert rfl h]
  | insertSession tokenHash adminID expiresAt now => rw [attempts_insert rfl h]
  | deleteSession tokenHash =>
    cases h
    exact attempts_delete t _
  | insertServer name tokenHash now =>
    simp only [exec] at h
    split at h
    next => cases h
    next => rw [attempts_insertSerial (fun _ => rfl) h]
  | updateServer id name enabled now =>
    rw [attempts_replace (fun row => by cases row <;> rfl) h]
  | setToken id tokenHash now =>
    simp only [exec] at h
    split at h
    next => cases h
    next => rw [attempts_replace (fun row => by cases row <;> rfl) h]
  | setAgentVersion id version => rw [attempts_replace (fun row => by cases row <;> rfl) h]
  | deleteServer id =>
    cases h
    exact attempts_delete t _
  | upsertMinute serverID minuteUnix payload now =>
    rw [attempts_upsert rfl (fun row => by cases row <;> rfl) h]
  | deleteMinutesBefore cutoffUnix =>
    cases h
    exact attempts_delete t _
  | upsertWebhook config now => rw [attempts_upsert rfl (fun row => by cases row <;> rfl) h]
  | insertRule rule now =>
    rw [exec] at h
    rw [attempts_insertSerial (fun _ => rfl) h]
  | updateRule rule now => rw [attempts_replace (fun row => by cases row <;> rfl) h]
  | deleteRule id =>
    cases h
    exact attempts_delete t _
  | upsertState state => rw [attempts_upsert rfl (fun row => by cases row <;> rfl) h]
  | insertEvent event =>
    rw [exec] at h
    rw [attempts_insertSerial (fun _ => rfl) h]
  | insertAttempt attempt => cases hother

/-- A transaction without an `INSERT` of an attempt can only take some away. -/
theorem attempts_transaction {statements : List (Statement D F)}
    (hother : ∀ statement ∈ statements, statement.addsAttempt = false)
    (h : t.transaction statements = some t') : t'.attempts.Sublist t.attempts := by
  induction statements generalizing t with
  | nil =>
    cases h
    exact List.Sublist.refl _
  | cons statement rest ih =>
    obtain ⟨t'', hexec, hrest⟩ := Option.bind_eq_some_iff.mp h
    obtain ⟨hfirst, hothers⟩ := List.forall_mem_cons.mp hother
    exact (ih hothers hrest).trans (attempts_exec hfirst hexec)

/-- So does a call of a service, also one that fails. -/
theorem attempts_step {call : Call D F}
    (hother : ∀ statement ∈ call.statements, statement.addsAttempt = false) :
    (t.step call).attempts.Sublist t.attempts := by
  unfold step
  split
  next => exact List.Sublist.refl _
  next =>
    cases h : t.transaction call.statements with
    | none => exact List.Sublist.refl _
    | some t' => exact attempts_transaction hother h

end Attempts

end Tables

end TinyProbe.Db

namespace TinyProbe.Alerting

open TinyProbe.Run Db

variable {D F : Type}

/-- `Success`, of what an attempt has recorded. -/
def Attempt.success (a : Attempt) : Bool := AttemptResult.success ⟨a.responseStatus, a.errorText⟩

/-- `DeliveryOutcome`. -/
structure DeliveryOutcome where
  success : Bool
  attempts : List Attempt

/-- `RecordAttempt`: the row that is stored, and the tables. -/
def recordAttempt [DecidableEq D] (t : Tables D F) (now : Time) (attempt : Attempt)
    (fails : Bool) : Option Attempt × Tables D F :=
  if attempt.attempt < 1 ∨ attempt.eventID.any (· < 1) then (none, t)
  else
    let row := { attempt with sentAt := if attempt.sentAt = .zero then now else attempt.sentAt }
    match if fails then none else t.exec (.insertAttempt row) with
    | none => (none, t)
    | some t' => (some { row with id := t'.sequence .attempts }, t')

/-- `ListAttempts`. The rows are in the order of their ids (`Sound.order`). -/
def listAttempts (t : Tables D F) (eventID : Int) : List Attempt :=
  t.attempts.filter (·.eventID == some eventID)

/-! ## What a call of `dispatch` records -/

/-- The attempts of a job, from the first one on. -/
structure Course (job : DeliveryJob F) (attempts : List Attempt) : Prop where
  numbers : attempts.map Attempt.attempt =
    (List.range attempts.length).map fun i : Nat => (i : Int) + 1
  atMost : attempts.length ≤ delays.length
  about : ∀ a ∈ attempts, a.isTest = job.isTest ∧
    a.eventID = if 0 < job.event.id then some job.event.id else none
  /-- Only the last one may be a success. -/
  retried : ∀ i a, attempts[i]? = some a → i + 1 < attempts.length → a.success = false
  /-- The delays are kept. -/
  spaced : ∀ i a b delay, attempts[i]? = some a → attempts[i + 1]? = some b →
    delays[i + 1]? = some delay → a.sentAt.ns + delay ≤ b.sentAt.ns

/-- The next attempt may be made: those that there are have failed, and the delay is over. -/
structure Due (attempts : List Attempt) (now : Time) : Prop where
  failed : ∀ a ∈ attempts, a.success = false
  rested : ∀ a delay, attempts.getLast? = some a → delays[attempts.length]? = some delay →
    a.sentAt.ns + delay ≤ now.ns

/-- Of two attempts, the one was made before the other, failed, and was waited after. -/
def Earlier (a b : Attempt) : Prop :=
  a.attempt < b.attempt ∧ a.success = false ∧ a.sentAt.ns + 5 * 1000000000 ≤ b.sentAt.ns

section Courses

variable {job : DeliveryJob F} {attempts : List Attempt} {now : Time} {a : Attempt}

/-- A call begins without attempts. -/
theorem course_nil (job : DeliveryJob F) : Course job [] where
  numbers := rfl
  atMost := Nat.zero_le _
  about := fun _ h => absurd h List.not_mem_nil
  retried := fun _ _ _ h => absurd h (Nat.not_lt_zero _)
  spaced := fun _ _ _ _ h => by cases h

/-- The first attempt is due at once. -/
theorem due_nil (now : Time) : Due [] now where
  failed := fun _ h => absurd h List.not_mem_nil
  rested := fun _ _ h => by cases h

/-- **One more attempt.** -/
theorem Course.snoc (h : Course job attempts) (hdue : Due attempts now)
    (hlength : attempts.length < delays.length)
    (hnumber : a.attempt = (attempts.length : Int) + 1)
    (habout : a.isTest = job.isTest ∧
      a.eventID = if 0 < job.event.id then some job.event.id else none)
    (hsent : a.sentAt = now) : Course job (attempts ++ [a]) where
  numbers := by
    rw [List.map_append, h.numbers, List.length_append, List.length_singleton, List.range_succ,
      List.map_append]
    simp [hnumber]
  atMost := by
    rw [List.length_append, List.length_singleton]
    exact hlength
  about := List.forall_mem_append.mpr ⟨h.about, List.forall_mem_singleton.mpr habout⟩
  retried := by
    intro i b hb hi
    rw [List.length_append, List.length_singleton] at hi
    rw [List.getElem?_append_left (by omega)] at hb
    exact hdue.failed b (List.mem_of_getElem? hb)
  spaced := by
    intro i b c delay hb hc hdelay
    rcases Nat.lt_trichotomy (i + 1) attempts.length with hi | hi | hi
    · rw [List.getElem?_append_left (by omega)] at hb hc
      exact h.spaced i b c delay hb hc hdelay
    · rw [List.getElem?_append_left (by omega)] at hb
      rw [List.getElem?_append_right (by omega), hi, Nat.sub_self] at hc
      cases hc
      rw [hsent]
      refine hdue.rested b delay ?_ (hi ▸ hdelay)
      rw [List.getLast?_eq_getElem?, ← hi, Nat.add_sub_cancel]
      exact hb
    · rw [List.getElem?_append_right (by omega), List.getElem?_eq_none (by simp; omega)] at hc
      cases hc

/-- A later attempt follows every earlier one. -/
theorem Course.pairwise (h : Course job attempts) : attempts.Pairwise Earlier := by
  have hlong : ∀ n delay, delays[n + 1]? = some delay → 5 * 1000000000 ≤ delay := by
    intro n delay hdelay
    match n with
    | 0 => cases hdelay; decide
    | 1 => cases hdelay; decide
    | n + 2 => cases hdelay
  have hnumber : ∀ (i : Nat) a, attempts[i]? = some a → a.attempt = (i : Int) + 1 := by
    intro i a ha
    have hi : i < attempts.length := (List.getElem?_eq_some_iff.mp ha).1
    have heq := congrArg (·[i]?) h.numbers
    simp only [List.getElem?_map, ha, List.getElem?_range hi, Option.map_some,
      Option.some.injEq] at heq
    exact heq
  -- the delays between two attempts add up
  have hspaced : ∀ k i a b, attempts[i]? = some a → attempts[i + k + 1]? = some b →
      a.sentAt.ns + 5 * 1000000000 ≤ b.sentAt.ns := by
    intro k
    induction k with
    | zero =>
      intro i a b ha hb
      have hi := (List.getElem?_eq_some_iff.mp hb).1
      obtain ⟨delay, hdelay⟩ : ∃ delay, delays[i + 1]? = some delay :=
        ⟨_, List.getElem?_eq_getElem (Nat.lt_of_lt_of_le hi h.atMost)⟩
      have := h.spaced i a b delay ha hb hdelay
      have := hlong i delay hdelay
      omega
    | succ k ih =>
      intro i a b ha hb
      have hi := (List.getElem?_eq_some_iff.mp hb).1
      obtain ⟨c, hc⟩ : ∃ c, attempts[i + k + 1]? = some c :=
        ⟨_, List.getElem?_eq_getElem (by omega)⟩
      have hfirst := ih i a c ha hc
      obtain ⟨delay, hdelay⟩ : ∃ delay, delays[i + k + 1 + 1]? = some delay :=
        ⟨_, List.getElem?_eq_getElem (Nat.lt_of_lt_of_le hi h.atMost)⟩
      have := h.spaced (i + k + 1) c b delay hc hb hdelay
      have := hlong (i + k + 1) delay hdelay
      omega
  rw [List.pairwise_iff_getElem]
  intro i j hi hj hij
  have ha := List.getElem?_eq_getElem hi
  have hb := List.getElem?_eq_getElem hj
  refine ⟨?_, h.retried i _ ha (by omega), ?_⟩
  · rw [hnumber i _ ha, hnumber j _ hb]
    omega
  · obtain ⟨k, rfl⟩ : ∃ k, j = i + k + 1 := ⟨j - i - 1, by omega⟩
    exact hspaced k i _ _ ha hb

/-- What is due stays due. -/
theorem Due.mono {now' : Time} (h : Due attempts now)
    (hle : now.ns ≤ now'.ns) : Due attempts now' :=
  ⟨h.failed, fun a delay ha hdelay => (h.rested a delay ha hdelay).trans hle⟩

end Courses

/-! ## The dispatcher with its log -/

/-- Who calls `dispatch`: a worker, or a webhook test. -/
abbrev Caller := Fin deliveryWorkerCount ⊕ Nat

/-- Why a call of `dispatch` returns. -/
inductive Ending where
  | delivered
  | exhausted
  /-- A sleep was ended by the context. -/
  | interrupted
  /-- `RenderTemplate` failed. -/
  | unrendered
deriving DecidableEq

/-- A call of `dispatch` that has returned. -/
structure Return where
  call : Nat
  outcome : DeliveryOutcome
  ending : Ending

/-- The dispatcher, the tests that are under way, the tables, and the attempts that each caller has
collected. The calls of `dispatch` are numbered; their jobs, the attempts that they have made and what
they have returned are records of the run. -/
structure Deliveries (D F : Type) where
  dispatcher : Dispatcher F
  testers : Nat → Worker F
  tables : Tables D F
  /-- The attempts of earlier runs. -/
  former : List Attempt
  collected : Caller → List Attempt
  number : Caller → Nat
  calls : List (DeliveryJob F)
  log : List (Nat × Attempt)
  returned : List Return

namespace Deliveries

/-- One step. `fails` says that the attempt cannot be stored. -/
inductive Action (D F : Type) where
  | enqueue (job : DeliveryJob F)
  /-- A worker receives a job, and `RenderTemplate` returns or fails. -/
  | take (w : Fin deliveryWorkerCount) (err : Option String) (fails : Bool)
  /-- `TestWebhook` calls `DispatchNow`. Of its event, which is `Event{}`, only the id is read. -/
  | test (n : Nat) (event : Event F) (config : WebhookConfig) (data : TemplateData F)
    (err : Option String) (fails : Bool)
  /-- `Send` returns. -/
  | attempt (c : Caller) (result : AttemptResult) (fails : Bool)
  | wake (c : Caller)
  | interrupt (c : Caller)
  | wait (ns : Nat)
  | cancel
  | exit (w : Fin deliveryWorkerCount)
  /-- What the services do with the tables meanwhile. -/
  | call (call : Tables.Call D F)

def initial (now : Time) (tables : Tables D F) : Deliveries D F :=
  { dispatcher := .initial now, testers := fun _ => .idle, tables, former := tables.attempts
    collected := fun _ => [], number := fun _ => 0, calls := [], log := [], returned := [] }

/-- Where a caller stands. -/
def place (s : Deliveries D F) : Caller → Worker F
  | .inl w => s.dispatcher.workers w
  | .inr n => s.testers n

/-- The attempts of a call. -/
def attemptsOf (s : Deliveries D F) (call : Nat) : List Attempt :=
  (s.log.filter (·.1 == call)).map Prod.snd

/-- The attempt that `dispatch` records. -/
def attemptOf (s : Deliveries D F) (job : DeliveryJob F) (number : Nat) (result : AttemptResult) :
    Attempt :=
  { id := 0, eventID := if 0 < job.event.id then some job.event.id else none, isTest := job.isTest
    attempt := number, responseStatus := result.responseStatus, errorText := result.errorText
    sentAt := s.dispatcher.now }

section Steps

variable [DecidableEq D]

/-- The attempt is stored, if it can be, and collected. -/
def record (s : Deliveries D F) (c : Caller) (job : DeliveryJob F) (number : Nat)
    (result : AttemptResult) (fails : Bool) : Deliveries D F :=
  let attempt := s.attemptOf job number result
  let stored := recordAttempt s.tables s.dispatcher.now attempt fails
  let attempt := stored.1.getD attempt
  { s with
    tables := stored.2
    collected := Function.update s.collected c (s.collected c ++ [attempt])
    log := s.log ++ [(s.number c, attempt)] }

/-- `dispatch` returns. -/
def finish (s : Deliveries D F) (c : Caller) (ending : Ending) : Deliveries D F :=
  { s with
    returned := s.returned ++
      [⟨s.number c, ⟨decide (ending = .delivered), s.collected c⟩, ending⟩] }

/-- `dispatch` is called. -/
def enter (s : Deliveries D F) (c : Caller) (job : DeliveryJob F) : Deliveries D F :=
  { s with
    collected := Function.update s.collected c []
    number := Function.update s.number c s.calls.length
    calls := s.calls ++ [job] }

/-- `dispatch` renders the body. -/
def begin (s : Deliveries D F) (c : Caller) (job : DeliveryJob F) (err : Option String)
    (fails : Bool) : Deliveries D F :=
  match err with
  | none => s.enter c job
  | some text => ((s.enter c job).record c job 1 ⟨none, text⟩ fails).finish c .unrendered

/-- A caller goes on: a worker by a step of the dispatcher, a test by itself. -/
def move (s : Deliveries D F) (c : Caller) (a : Fin deliveryWorkerCount → Dispatcher.Action F)
    (place : Worker F) : Deliveries D F :=
  match c with
  | .inl w => { s with dispatcher := s.dispatcher.step (a w) }
  | .inr n => { s with testers := Function.update s.testers n place }

/-- Where an attempt leads. -/
def after (job : DeliveryJob F) (index : Nat) (result : AttemptResult) (now : Time) : Worker F :=
  if result.success then .idle else .attempting job (index + 1) now

def step (s : Deliveries D F) : Action D F → Deliveries D F
  | .enqueue job => { s with dispatcher := s.dispatcher.step (.enqueue job) }
  | .take w err fails =>
    match s.dispatcher.workers w, s.dispatcher.queue with
    | .idle, job :: _ =>
      { s with dispatcher := s.dispatcher.step (.take w err.isNone) }.begin (.inl w) job err fails
    | _, _ => s
  | .test n event config data err fails =>
    match s.testers n with
    | .idle =>
      let job : DeliveryJob F := { event := { event with id := 0 }, config, data, isTest := true }
      let place := if err.isNone then .attempting job 0 s.dispatcher.now else .idle
      { s with testers := Function.update s.testers n place }.begin (.inr n) job err fails
    | _ => s
  | .attempt c result fails =>
    match s.place c with
    | .sending job index =>
      let s' := (s.record c job (index + 1) result fails).move c (.attempt · result)
        (after job index result s.dispatcher.now)
      if result.success then s'.finish c .delivered
      else if index + 1 < delays.length then s'
      else s'.finish c .exhausted
    | _ => s
  | .wake c =>
    match s.place c with
    | .sleeping job index wakesAt =>
      if wakesAt.ns ≤ s.dispatcher.now.ns then s.move c .wake (.sending job index) else s
    | _ => s
  | .interrupt c =>
    match s.place c with
    | .sleeping _ _ _ =>
      match c with
      | .inl w =>
        -- a worker's context is that of the application
        if s.dispatcher.cancelled then
          { s with dispatcher := s.dispatcher.step (.interrupt w) }.finish c .interrupted
        else s
      | .inr n => { s with testers := Function.update s.testers n .idle }.finish c .interrupted
    | _ => s
  | .wait ns => { s with dispatcher := s.dispatcher.step (.wait ns) }
  | .cancel => { s with dispatcher := s.dispatcher.step .cancel }
  | .exit w => { s with dispatcher := s.dispatcher.step (.exit w) }
  | .call call => { s with tables := s.tables.step call }

end Steps

end Deliveries

end TinyProbe.Alerting
