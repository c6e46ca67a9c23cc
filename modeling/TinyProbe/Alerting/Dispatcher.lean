import TinyProbe.Alerting.Evaluator
import TinyProbe.Lib.Run
import TinyProbe.Lib.Stream

/-!
# The dispatcher

Two workers take delivery jobs off one bounded queue. A worker keeps its job through up to three
attempts, of which the second and the third wait 5 s and 15 s, and takes the next one when the job
has succeeded or failed for good. The steps are those of the queue and of each worker on its own,
so a run is a schedule; what the network answers and whether a template renders is part of the
action.

While one worker waits for its retry the other goes on with newer jobs, so a firing notification
can be delivered after the recovered one that followed it (`retried_not_inOrder`). The retries are
the only way for that to happen: an event delivered after a newer one was still being dispatched
when the newer one was delivered (`delivered_order`). There are two workers, so at any time there is
at most one such event. That jobs are enqueued in event-id order is what the evaluator does
(`jobs_evaluateRules`).

The attempts a worker records and the completion channel of the webhook test are left out: nothing
here depends on whether they can be stored. The body the template renders and the configuration it
is sent with only show in the result of an attempt.
-/

namespace TinyProbe.Alerting

open TinyProbe.Run TinyProbe.Stream

variable {F : Type}

/-- `AttemptResult`. -/
structure AttemptResult where
  responseStatus : Option Int
  errorText : String
deriving DecidableEq

/-- `AttemptResult.Success`. -/
def AttemptResult.success (result : AttemptResult) : Bool :=
  result.responseStatus.any (fun status => 200 ≤ status && status < 300) && result.errorText == ""

/-- `deliveryQueueCapacity`. -/
def deliveryQueueCapacity : Nat := 64

/-- `deliveryWorkerCount`. -/
abbrev deliveryWorkerCount : Nat := 2

/-- The `delays` of `dispatch`, in nanoseconds. -/
def delays : List Int := [0, 5 * 1000000000, 15 * 1000000000]

/-- Where a worker stands. -/
inductive Worker (F : Type) where
  /-- At the `select` of `Run`. -/
  | idle
  /-- In `dispatch`, about to make the attempt of an index. -/
  | sending (job : DeliveryJob F) (index : Nat)
  /-- In the sleep before the attempt of an index. -/
  | sleeping (job : DeliveryJob F) (index : Nat) (wakesAt : Time)
  | stopped

/-- The job in a worker's hands. -/
def Worker.job? : Worker F → Option (DeliveryJob F)
  | .sending job _ | .sleeping job _ _ => some job
  | .idle | .stopped => none

/-- The head of the loop over `delays`. -/
def Worker.attempting (job : DeliveryJob F) (index : Nat) (now : Time) : Worker F :=
  match delays[index]? with
  | none => .idle
  | some delay => if 0 < delay then .sleeping job index ⟨now.ns + delay⟩ else .sending job index

/-- A successful delivery, and the job the other worker had in its hands at that moment. -/
structure Delivery (F : Type) where
  job : DeliveryJob F
  beside : Option (DeliveryJob F)

/-- The queue, the workers, the clock, whether the context is done, and two logs of the model: the
jobs the queue has taken and the deliveries that succeeded. -/
structure Dispatcher (F : Type) where
  queue : List (DeliveryJob F)
  workers : Fin deliveryWorkerCount → Worker F
  now : Time
  cancelled : Bool
  enqueued : List (DeliveryJob F)
  delivered : List (Delivery F)

namespace Dispatcher

/-- One step. -/
inductive Action (F : Type) where
  | enqueue (job : DeliveryJob F)
  /-- A worker receives a job; `renders` says whether `RenderTemplate` succeeds. -/
  | take (w : Fin deliveryWorkerCount) (renders : Bool)
  /-- `Send` returns. -/
  | attempt (w : Fin deliveryWorkerCount) (result : AttemptResult)
  /-- The timer of a sleep has run out. -/
  | wake (w : Fin deliveryWorkerCount)
  /-- Time passes, in nanoseconds. -/
  | wait (ns : Nat)
  | cancel
  /-- The context ends a sleep, and with it the dispatch. -/
  | interrupt (w : Fin deliveryWorkerCount)
  /-- The context ends an idle worker. -/
  | exit (w : Fin deliveryWorkerCount)

/-- A dispatcher that starts at an instant. -/
def initial (now : Time) : Dispatcher F :=
  { queue := [], workers := fun _ => .idle, now, cancelled := false, enqueued := []
    delivered := [] }

/-- The other worker. -/
def other (w : Fin deliveryWorkerCount) : Fin deliveryWorkerCount := w.rev

def put (s : Dispatcher F) (w : Fin deliveryWorkerCount) (worker : Worker F) : Dispatcher F :=
  { s with workers := Function.update s.workers w worker }

/-- `Enqueue`. -/
def enqueue (s : Dispatcher F) (job : DeliveryJob F) : Dispatcher F :=
  if s.queue.length < deliveryQueueCapacity then
    { s with queue := s.queue ++ [job], enqueued := s.enqueued ++ [job] }
  else s

/-- A successful attempt. -/
def deliver (s : Dispatcher F) (w : Fin deliveryWorkerCount) (job : DeliveryJob F) :
    Dispatcher F :=
  { s.put w .idle with delivered := s.delivered ++ [⟨job, (s.workers (other w)).job?⟩] }

def step (s : Dispatcher F) : Action F → Dispatcher F
  | .enqueue job => s.enqueue job
  | .take w renders =>
    match s.workers w, s.queue with
    | .idle, job :: queue =>
      { s with queue }.put w (if renders then .attempting job 0 s.now else .idle)
    | _, _ => s
  | .attempt w result =>
    match s.workers w with
    | .sending job index =>
      if result.success then s.deliver w job else s.put w (.attempting job (index + 1) s.now)
    | _ => s
  | .wake w =>
    match s.workers w with
    | .sleeping job index wakesAt =>
      if wakesAt.ns ≤ s.now.ns then s.put w (.sending job index) else s
    | _ => s
  | .wait ns => { s with now := ⟨s.now.ns + ns⟩ }
  | .cancel => { s with cancelled := true }
  | .interrupt w =>
    match s.workers w, s.cancelled with
    | .sleeping _ _ _, true => s.put w .idle
    | _, _ => s
  | .exit w =>
    match s.workers w, s.cancelled with
    | .idle, true => s.put w .stopped
    | _, _ => s

/-- Jobs are enqueued in event-id order. -/
def Ordered (s : Dispatcher F) : Action F → Prop
  | .enqueue job => ∀ j ∈ s.enqueued, j.event.id < job.event.id
  | _ => True

instance decidableOrdered (s : Dispatcher F) : ∀ a, Decidable (Ordered s a)
  | .enqueue job => inferInstanceAs (Decidable (∀ j ∈ s.enqueued, j.event.id < job.event.id))
  | .take _ _ | .attempt _ _ | .wake _ | .wait _ | .cancel | .interrupt _ | .exit _ =>
    isTrue trivial

/-! ## The invariant -/

/-- Every job is newer than those that left the queue before it, and the jobs in the workers' hands
are newer than what was delivered except beside them. -/
structure Inv (s : Dispatcher F) : Prop where
  known : ∀ j, j ∈ s.queue ∨ (∃ w, (s.workers w).job? = some j) ∨ (∃ d ∈ s.delivered, d.job = j) →
    j ∈ s.enqueued
  queue : s.queue.Pairwise fun a b => a.event.id < b.event.id
  held : ∀ w j, (s.workers w).job? = some j → ∀ k ∈ s.queue, j.event.id < k.event.id
  done : ∀ d ∈ s.delivered, ∀ k ∈ s.queue, d.job.event.id < k.event.id
  beside : ∀ w j, (s.workers w).job? = some j → ∀ d ∈ s.delivered,
    d.job.event.id < j.event.id ∨ d.beside = some j
  delivered : s.delivered.Pairwise fun a b =>
    a.job.event.id < b.job.event.id ∨ a.beside = some b.job

section Step

variable {s : Dispatcher F} {w : Fin deliveryWorkerCount}

/-- Nothing is enqueued, so nothing is out of order. -/
theorem inv_initial (now : Time) : Inv (initial now : Dispatcher F) where
  known := by
    rintro j (h | ⟨w, h⟩ | ⟨d, h, _⟩)
    · cases h
    · cases h
    · cases h
  queue := List.Pairwise.nil
  held := fun _ _ h => nomatch h
  done := fun _ h => absurd h List.not_mem_nil
  beside := fun _ _ h => nomatch h
  delivered := List.Pairwise.nil

theorem workers_put (worker : Worker F) (v : Fin deliveryWorkerCount) :
    (s.put w worker).workers v = if v = w then worker else s.workers v :=
  Function.update_apply _ _ _ _

/-- A worker that moves on keeps its job or drops it. -/
theorem job?_put {worker : Worker F}
    (h : worker.job? = none ∨ worker.job? = (s.workers w).job?) {v : Fin deliveryWorkerCount}
    {j : DeliveryJob F} (hj : ((s.put w worker).workers v).job? = some j) :
    (s.workers v).job? = some j := by
  rw [workers_put] at hj
  split at hj
  next hv =>
    rcases h with h | h
    · rw [h] at hj
      cases hj
    · rwa [hv, ← h]
  next => exact hj

/-- A worker that goes on to an attempt holds the job it held, or none. -/
theorem job?_attempting (job : DeliveryJob F) (index : Nat) (now : Time) :
    (Worker.attempting job index now).job? = none ∨
      (Worker.attempting job index now).job? = some job := by
  unfold Worker.attempting
  split
  next => exact Or.inl rfl
  next => split <;> exact Or.inr rfl

/-- A worker that takes no new job leaves the order alone. -/
theorem Inv.put (h : Inv s) {worker : Worker F}
    (hjob : worker.job? = none ∨ worker.job? = (s.workers w).job?) : Inv (s.put w worker) where
  known := by
    rintro j (hj | ⟨v, hj⟩ | hj)
    · exact h.known j (Or.inl hj)
    · exact h.known j (Or.inr (Or.inl ⟨v, job?_put hjob hj⟩))
    · exact h.known j (Or.inr (Or.inr hj))
  queue := h.queue
  held := fun v j hj => h.held v j (job?_put hjob hj)
  done := h.done
  beside := fun v j hj => h.beside v j (job?_put hjob hj)
  delivered := h.delivered

/-- A job of a newer event goes behind all others. -/
theorem Inv.enqueue (h : Inv s) {job : DeliveryJob F}
    (hok : ∀ j ∈ s.enqueued, j.event.id < job.event.id) : Inv (s.enqueue job) := by
  unfold Dispatcher.enqueue
  split
  next =>
    have hnew : ∀ k ∈ s.queue ++ [job], k ∈ s.queue ∨ k = job := fun k hk =>
      (List.mem_append.mp hk).imp id List.mem_singleton.mp
    refine ⟨?_, ?_, ?_, ?_, h.beside, h.delivered⟩
    · rintro j (hj | hj)
      · rcases hnew j hj with hj | rfl
        · exact List.mem_append_left _ (h.known j (Or.inl hj))
        · exact List.mem_append_right _ List.mem_cons_self
      · exact List.mem_append_left _ (h.known j (Or.inr hj))
    · refine List.pairwise_append.mpr ⟨h.queue, List.pairwise_singleton _ _, fun a ha b hb => ?_⟩
      rw [List.mem_singleton.mp hb]
      exact hok a (h.known a (Or.inl ha))
    · intro w j hj k hk
      rcases hnew k hk with hk | rfl
      · exact h.held w j hj k hk
      · exact hok j (h.known j (Or.inr (Or.inl ⟨w, hj⟩)))
    · intro d hd k hk
      rcases hnew k hk with hk | rfl
      · exact h.done d hd k hk
      · exact hok _ (h.known _ (Or.inr (Or.inr ⟨d, hd, rfl⟩)))
  next => exact h

/-- The head of the queue goes into the hands of an idle worker. -/
theorem Inv.take (h : Inv s) {job : DeliveryJob F} {queue : List (DeliveryJob F)}
    (hqueue : s.queue = job :: queue) {worker : Worker F}
    (hjob : worker.job? = none ∨ worker.job? = some job) :
    Inv ({ s with queue }.put w worker) := by
  have hmem : job ∈ s.queue := hqueue ▸ List.mem_cons_self
  have hrest : ∀ k ∈ queue, k ∈ s.queue := fun k hk => hqueue ▸ List.mem_cons_of_mem _ hk
  have hsorted := hqueue ▸ h.queue
  have hholds : ∀ v j, (({ s with queue }.put w worker).workers v).job? = some j →
      j = job ∨ (s.workers v).job? = some j := fun v j hj => by
    rw [workers_put] at hj
    split at hj
    next =>
      rcases hjob with hjob | hjob
      · rw [hjob] at hj
        cases hj
      · rw [hjob] at hj
        exact Or.inl (Option.some.inj hj).symm
    next => exact Or.inr hj
  refine ⟨?_, (List.pairwise_cons.mp hsorted).2, ?_, ?_, ?_, h.delivered⟩
  · rintro j (hj | ⟨v, hj⟩ | hj)
    · exact h.known j (Or.inl (hrest j hj))
    · rcases hholds v j hj with rfl | hj
      · exact h.known _ (Or.inl hmem)
      · exact h.known j (Or.inr (Or.inl ⟨v, hj⟩))
    · exact h.known j (Or.inr (Or.inr hj))
  · intro v j hj k hk
    rcases hholds v j hj with rfl | hj
    · exact (List.pairwise_cons.mp hsorted).1 k hk
    · exact h.held v j hj k (hrest k hk)
  · exact fun d hd k hk => h.done d hd k (hrest k hk)
  · intro v j hj d hd
    rcases hholds v j hj with rfl | hj
    · exact Or.inl (h.done d hd j hmem)
    · exact h.beside v j hj d hd

theorem other_of_ne : ∀ {v w : Fin deliveryWorkerCount}, v ≠ w → other w = v := by decide

/-- **A delivery goes to the end of the log**: what the log holds is older or was delivered beside
it, and the other worker's job is written down beside it. -/
theorem Inv.deliver (h : Inv s) {job : DeliveryJob F} (hjob : (s.workers w).job? = some job) :
    Inv (s.deliver w job) := by
  have hput : Inv (s.put w .idle) := h.put (Or.inl rfl)
  have hnew : ∀ d ∈ (s.deliver w job).delivered,
      d ∈ s.delivered ∨ d = ⟨job, (s.workers (other w)).job?⟩ := fun d hd =>
    (List.mem_append.mp hd).imp id List.mem_singleton.mp
  refine ⟨?_, h.queue, hput.held, ?_, ?_, ?_⟩
  · rintro j (hj | hj | ⟨d, hd, rfl⟩)
    · exact hput.known j (Or.inl hj)
    · exact hput.known j (Or.inr (Or.inl hj))
    · rcases hnew d hd with hd | rfl
      · exact h.known _ (Or.inr (Or.inr ⟨d, hd, rfl⟩))
      · exact h.known job (Or.inr (Or.inl ⟨w, hjob⟩))
  · intro d hd k hk
    rcases hnew d hd with hd | rfl
    · exact h.done d hd k hk
    · exact h.held w job hjob k hk
  · intro v j hj d hd
    rcases hnew d hd with hd | rfl
    · exact hput.beside v j hj d hd
    · have hne : v ≠ w := by
        rintro rfl
        rw [Dispatcher.deliver, workers_put, if_pos rfl] at hj
        cases hj
      rw [other_of_ne hne]
      exact Or.inr (job?_put (Or.inl rfl) hj)
  · refine List.pairwise_append.mpr ⟨h.delivered, List.pairwise_singleton _ _, fun a ha b hb => ?_⟩
    rw [List.mem_singleton.mp hb]
    exact h.beside w job hjob a ha

/-- Every step in which the events arrive in their order keeps the invariant. -/
theorem inv_step {a : Action F} (hok : Ordered s a) (h : Inv s) : Inv (s.step a) := by
  cases a with
  | enqueue job => exact h.enqueue hok
  | take w renders =>
    simp only [step]
    split
    next job queue _ hqueue =>
      apply h.take hqueue
      split
      next => exact job?_attempting job 0 s.now
      next => exact Or.inl rfl
    next => exact h
  | attempt w result =>
    simp only [step]
    split
    next job index hworker =>
      have hjob : (s.workers w).job? = some job := by rw [hworker, Worker.job?]
      split
      next => exact h.deliver hjob
      next => exact h.put ((job?_attempting job (index + 1) s.now).imp id fun hj => hj.trans hjob.symm)
    next => exact h
  | wake w =>
    simp only [step]
    split
    next job index wakesAt hworker =>
      split
      next => exact h.put (Or.inr (by rw [hworker, Worker.job?, Worker.job?]))
      next => exact h
    next => exact h
  | wait ns => exact ⟨h.known, h.queue, h.held, h.done, h.beside, h.delivered⟩
  | cancel => exact ⟨h.known, h.queue, h.held, h.done, h.beside, h.delivered⟩
  | interrupt w =>
    simp only [step]
    split
    next => exact h.put (Or.inl rfl)
    next => exact h
  | exit w =>
    simp only [step]
    split
    next => exact h.put (Or.inl rfl)
    next => exact h

end Step

/-! ## The order of the jobs -/

section Jobs

variable [Float64 F] {event : Live.Event F} {rule : Rule F} {turn : Turn} {db : Database F}

/-- A turn's job is of the event it has just stored. -/
theorem job_evaluateRule :
    db.nextEventID ≤ (evaluateRule event rule turn db).2.nextEventID ∧
      ∀ job, (evaluateRule event rule turn db).1 = some job →
        job.event.id = db.nextEventID ∧
          db.nextEventID < (evaluateRule event rule turn db).2.nextEventID := by
  rcases evaluateRule_cases event rule turn db with heq | ⟨_, heq⟩
  · rw [heq]
    exact ⟨Int.le_refl _, fun job h => by cases h⟩
  · rw [heq, advanced, storedFor]
    cases createdFor rule event (resultOf event rule turn.now db) with
    | none => exact ⟨Int.le_refl _, fun job h => by cases h⟩
    | some e =>
      have hlt : db.nextEventID < db.nextEventID + 1 := Int.lt_succ _
      refine ⟨Int.le_of_lt hlt, fun job h => ⟨?_, hlt⟩⟩
      rw [enqueueDelivery_event h]
      rfl

/-- **The evaluator enqueues in event-id order**: the ids of a loop's jobs increase, and lie between
the next ids before and after it. -/
theorem jobs_evaluateRules (turns : Int → Turn) (rules : List (Rule F)) :
    db.nextEventID ≤ (evaluateRules event turns rules db).2.nextEventID ∧
      (∀ job ∈ (evaluateRules event turns rules db).1, db.nextEventID ≤ job.event.id ∧
        job.event.id < (evaluateRules event turns rules db).2.nextEventID) ∧
      (evaluateRules event turns rules db).1.Pairwise fun a b => a.event.id < b.event.id := by
  induction rules generalizing db with
  | nil => exact ⟨Int.le_refl _, fun _ h => absurd h List.not_mem_nil, List.Pairwise.nil⟩
  | cons rule rules ih =>
    have hsingle : ∀ o : Option (DeliveryJob F),
        o.toList.Pairwise fun a b => a.event.id < b.event.id := fun o => by
      cases o with
      | none => exact List.Pairwise.nil
      | some job => exact List.pairwise_singleton _ _
    obtain ⟨hfirst, hjob⟩ := @job_evaluateRule F _ event rule (turns rule.id) db
    obtain ⟨hrest, hbounds, hsorted⟩ := @ih (evaluateRule event rule (turns rule.id) db).2
    refine ⟨Int.le_trans hfirst hrest, fun job h => ?_, List.pairwise_append.mpr
      ⟨?_, hsorted, fun a ha b hb => ?_⟩⟩
    · rcases List.mem_append.mp h with h | h
      · obtain ⟨hid, hlt⟩ := hjob job (Option.mem_toList.mp h)
        exact ⟨Int.le_of_eq hid.symm, hid ▸ Int.lt_of_lt_of_le hlt hrest⟩
      · exact ⟨Int.le_trans hfirst (hbounds job h).1, (hbounds job h).2⟩
    · exact hsingle _
    · obtain ⟨hid, hlt⟩ := hjob a (Option.mem_toList.mp ha)
      exact hid ▸ Int.lt_of_lt_of_le hlt (hbounds b hb).1

end Jobs

/-! ## The order of the deliveries -/

/-- The successful deliveries of each rule are in event-id order. -/
def InOrder (log : List (Delivery F)) : Prop :=
  log.Pairwise fun a b => a.job.event.ruleID = b.job.event.ruleID →
    a.job.event.id < b.job.event.id

/-- Each delivery is newer than those before it, except for the event the other worker had in its
hands when a newer one was delivered; and the last delivery of a rule is of its newest delivered
event, with the same exception. -/
structure NearlyInOrder (log : List (Delivery F)) : Prop where
  order : log.Pairwise fun a b => a.job.event.id < b.job.event.id ∨ a.beside = some b.job
  last : ∀ ruleID b, lastOf (·.job.event.ruleID) ruleID log = some b →
    ∀ a ∈ log, a.job.event.ruleID = ruleID →
      a.job.event.id ≤ b.job.event.id ∨ a.beside = some b.job

/-- **An event overtaken by a newer one was being dispatched beside it**, in every schedule of jobs
that are enqueued in event-id order. There are two workers, and each takes its jobs in that order,
so only while one of them is still at an older event can the other one deliver a newer. -/
theorem delivered_order (now : Time) (as : List (Action F))
    (h : Guarded step Ordered (initial now) as) :
    NearlyInOrder (run step (initial now) as).delivered := by
  have hinv : Inv (run step (initial now) as) :=
    h.invariant (fun s _ hok (hi : Inv s) => inv_step hok hi) (inv_initial now)
  refine ⟨hinv.delivered, fun ruleID b hlast a ha hrule => ?_⟩
  rcases rel_lastOf hinv.delivered hlast ha hrule with rfl | hlt | hbeside
  · exact Or.inl (Int.le_refl _)
  · exact Or.inl (Int.le_of_lt hlt)
  · exact Or.inr hbeside

/-- A job of an event of rule 1. -/
def jobOf (eventID : Int) (status : Status) : DeliveryJob Exact :=
  { event :=
      { id := eventID, ruleID := 1, serverID := 1, status, currentValue := none, threshold := none
        startedAt := .zero, endedAt := none, createdAt := .zero }
    config :=
      { url := "", headers := ∅, bodyTemplate := "", enabled := true, createdAt := .zero
        updatedAt := .zero }
    isTest := false
    data :=
      { eventID, serverID := 1, serverName := "", metric := .offline, status
        currentValue := .fin 0, threshold := .fin 0, startedAt := .zero, endedAt := none
        detailURL := "" } }

def answer (status : Int) : AttemptResult :=
  { responseStatus := some status, errorText := if 200 ≤ status ∧ status < 300 then "" else "failed" }

/-- A firing and a recovered event, delivered by one worker after the other. -/
def prompt : List (Action Exact) :=
  [.enqueue (jobOf 1 .firing), .take 0 true, .enqueue (jobOf 2 .recovered), .take 1 true,
    .attempt 0 (answer 200), .attempt 1 (answer 200)]

theorem prompt_nearlyInOrder :
    (run step (initial .zero) prompt).delivered.map (·.job.event.id) = [1, 2] ∧
      NearlyInOrder (run step (initial .zero) prompt).delivered :=
  ⟨by decide +kernel, delivered_order .zero prompt (by decide +kernel)⟩

/-- The firing event's first attempt fails; while it waits for the second, the recovered event is
delivered. -/
def retried : List (Action Exact) :=
  [.enqueue (jobOf 1 .firing), .take 0 true, .attempt 0 (answer 503),
    .enqueue (jobOf 2 .recovered), .take 1 true, .attempt 1 (answer 200),
    .wait 5000000000, .wake 0, .attempt 0 (answer 200)]

/-- The receiver's last word on the rule is that it is firing. -/
theorem retried_not_inOrder :
    Guarded step Ordered (initial .zero) retried ∧
      (run step (initial .zero) retried).delivered.map (·.job.event.status) =
        [.recovered, .firing] ∧
      ¬ InOrder (run step (initial .zero) retried).delivered := by
  refine ⟨by decide +kernel, by decide +kernel, fun h => ?_⟩
  have hids : (run step (initial .zero) retried).delivered.map
      (fun d => (d.job.event.ruleID, d.job.event.id)) = [(1, 2), (1, 1)] := by decide +kernel
  have hpair : ((run step (initial .zero) retried).delivered.map
      (fun d => (d.job.event.ruleID, d.job.event.id))).Pairwise
        fun a b => a.1 = b.1 → a.2 < b.2 := List.pairwise_map.mpr h
  rw [hids] at hpair
  exact absurd hpair (by decide)

end Dispatcher

end TinyProbe.Alerting
