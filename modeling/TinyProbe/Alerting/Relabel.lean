import TinyProbe.Alerting.Evaluator
import TinyProbe.Alerting.Queue

/-!
# Stale data and the label of an event

`EvaluateNow` keeps resource rules away from the last report of a dead machine by the type of the
event: `snapshot.offline` goes to offline rules only. The coordinator labels its events by what it
has done to the snapshot, so its label is right. The callback of `scheduleLatest` labels what it has
read `snapshot.updated` whatever its `Online` field says, and a snapshot that went offline in the
meantime passes the guard (`relabelled_stale`).

In runs whose callbacks send online snapshots only, no resource rule is advanced on an offline one
(`staleFree_of_guarded`).
-/

namespace TinyProbe.Alerting.Queue

open TinyProbe.Run TinyProbe.Live

variable {F : Type}

/-- The type of an event says what its snapshot is. -/
def Entry.Labelled (e : Entry F) : Prop :=
  e.event.type = .updated → e.event.snapshot.online = true

/-- Everything on its way to `EvaluateNow` is labelled. -/
def Labels (q : State F) : Prop := ∀ e, e ∈ q.publishing ∨ e ∈ q.stream → e.Labelled

/-- The step is not a callback's send of an offline snapshot. -/
def SendsOnline (q : State F) : Action F → Prop
  | .callback i => ∀ s snapshot version,
      AList.lookup i q.callbacks = some ⟨s, .read (some snapshot) version⟩ →
      q.queue.length < evaluationQueueCapacity → snapshot.online = true
  | _ => True

section Step

variable {q : State F}

/-- Steps that bring nothing new keep the labels. -/
theorem Labels.of_subset {q' : State F} (h : Labels q)
    (hsub : ∀ e, e ∈ q'.publishing ∨ e ∈ q'.stream → e ∈ q.publishing ∨ e ∈ q.stream) :
    Labels q' := fun e he => h e (hsub e he)

/-- Scheduling moves what waits, with its label. -/
theorem labels_schedule (h : Labels q) (s : Int) : Labels (q.scheduleLatest s) := by
  unfold State.scheduleLatest
  split
  next => exact h
  next =>
    split
    next => exact h
    next => exact h.of_subset fun e he => he

/-- What the coordinator publishes is labelled as it is. -/
theorem labels_publish (h : Labels q) (store : Store F) {events : List (Live.Event F)}
    (hevents : ∀ e ∈ events, e.type = .updated → e.snapshot.online = true) :
    Labels (q.publish store events) := fun e he => by
  rcases he with he | he
  · obtain ⟨event, hevent, rfl⟩ := List.mem_map.mp he
    exact hevents event hevent
  · exact h e (Or.inr he)

/-- `Submit` moves what it is given. -/
theorem labels_submit (h : Labels q) : Labels q.submit := by
  unfold State.submit
  split
  next e publishing _ hhead =>
    have hmem : ∀ x ∈ publishing, x ∈ q.publishing := fun x hx => hhead ▸ List.mem_cons_of_mem _ hx
    have he : e ∈ q.publishing := hhead ▸ List.mem_cons_self
    simp only [State.send]
    split
    next q' hq' =>
      split at hq'
      next =>
        cases hq'
        refine h.of_subset fun x hx => hx.elim (fun hx => Or.inl (hmem x hx)) fun hx => ?_
        simp only [State.stream, ← List.append_assoc] at hx
        rcases List.mem_append.mp hx with hx | hx
        · exact Or.inr hx
        · exact Or.inl (List.mem_singleton.mp hx ▸ he)
      next => cases hq'
    next => exact h.of_subset fun x hx => hx.imp (hmem x) id
  next => exact h

/-- A callback that sends an online snapshot labels it as it is. -/
theorem labels_callback {i : Nat} (hok : SendsOnline q (.callback i)) (h : Labels q) :
    Labels (q.callback i) := by
  unfold State.callback
  split
  next => exact h
  next s phase hi =>
    cases phase with
    | read got version =>
      cases got with
      | none => exact h.of_subset fun _ he => he
      | some snapshot =>
        simp only [State.send]
        split
        next q' hq' =>
          split at hq'
          next hroom =>
            cases hq'
            intro e he
            rcases he with he | he
            · exact h e (Or.inl he)
            · simp only [State.stream, State.enter, ← List.append_assoc] at he
              rcases List.mem_append.mp he with he | he
              · exact h e (Or.inr he)
              · rw [List.mem_singleton.mp he]
                exact fun _ => hok s snapshot version hi hroom
          next => cases hq'
        next => exact h.of_subset fun _ he => he
    | retry =>
      have hforget : Labels (q.forget i) := h.of_subset fun _ he => he
      exact labels_schedule hforget s
    | _ => exact h.of_subset fun _ he => he

/-- Every step that sends online snapshots keeps the labels. -/
theorem labels_step {a : Action F} (hok : SendsOnline q a) (h : Labels q) : Labels (q.step a) := by
  cases a with
  | accept server report t ip =>
    simp only [State.step]
    split
    next =>
      refine labels_publish h _ fun e he _ => ?_
      rw [List.mem_singleton.mp he]
      rfl
    next => exact h
  | sweep cutoff order =>
    simp only [State.step]
    split
    next =>
      refine labels_publish h _ fun e he htype => ?_
      obtain ⟨snapshot, _, rfl⟩ := List.mem_map.mp he
      cases htype
    next => exact h
  | submit => exact labels_submit h
  | schedule =>
    simp only [State.step]
    split
    next => exact h
    next s _ =>
      have htaken : Labels { q with dropped := none } := h.of_subset fun _ he => he
      exact labels_schedule htaken s
  | dequeue =>
    simp only [State.step]
    split
    next => exact h
    next e queue hq =>
      refine h.of_subset fun x hx => hx.imp id fun hx => ?_
      rw [State.stream, hq]
      simpa only [State.stream, List.append_assoc, List.singleton_append] using hx
  | callback i => exact labels_callback hok h

end Step

/-! ## What `EvaluateNow` advances -/

/-- Whatever the tables hold and whichever calls fail, none of the evaluations so far has computed a
new state of a resource rule from an offline snapshot. -/
def StaleFree (q : State F) : Prop :=
  ∀ e ∈ q.evaluated, ∀ (db : Database F) (listFails : Bool) (turn : Turn),
    ∀ rule ∈ listedRules e.event listFails db, rule.metric.isResource = true →
      reaches e.event rule turn db = true → e.event.snapshot.online = true

/-- **No resource rule is advanced on stale data** in a run whose callbacks send online snapshots
only. A callback labels what it reads as an update, so it is the one step that can pass an offline
snapshot by the guard of `EvaluateNow`; reports and sweeps label theirs as what they are. -/
theorem staleFree_of_guarded (as : List (Action F))
    (h : Guarded State.step SendsOnline State.initial as) :
    StaleFree (run State.step State.initial as) := by
  have hlabels : Labels (run State.step State.initial as) :=
    h.invariant (fun _ _ hok hl => labels_step hok hl) fun e he => by
      rcases he with he | he <;> cases he
  intro e he db listFails turn rule _ hmetric hreach
  apply hlabels e (Or.inr (List.mem_append_left _ he))
  cases htype : e.event.type with
  | updated => rfl
  | offline =>
    have hne : rule.metric ≠ .offline := fun heq => by
      rw [heq] at hmetric
      cases hmetric
    rw [reaches, htype, decide_eq_true hne] at hreach
    cases hreach

/-- The snapshot a callback is about to send. -/
def Phase.toSend? : Phase F → Option (Snapshot F)
  | .read got _ => got
  | _ => none

/-- The guard looks at one callback. -/
theorem sendsOnline_callback_iff {q : State F} {i : Nat} :
    SendsOnline q (.callback i) ↔ ∀ c ∈ AList.lookup i q.callbacks, ∀ snapshot ∈ c.phase.toSend?,
      q.queue.length < evaluationQueueCapacity → snapshot.online = true := by
  constructor
  · rintro h ⟨s, phase⟩ hc snapshot hsnapshot
    cases phase with
    | read got version =>
      cases hsnapshot
      exact h s snapshot version hc
    | _ => cases hsnapshot
  · intro h s snapshot version hc
    exact h _ hc snapshot rfl

instance (q : State F) : DecidablePred (SendsOnline q)
  | .callback _ => decidable_of_iff' _ sendsOnline_callback_iff
  | .accept _ _ _ _ => isTrue trivial
  | .sweep _ _ => isTrue trivial
  | .submit => isTrue trivial
  | .schedule => isTrue trivial
  | .dequeue => isTrue trivial

/-- Server 1 overflows the queue, the callback sends the snapshot it has read, which is online, and
then the server goes offline. -/
def resent : List (Action Exact) :=
  filled ++ [report 1 0, .submit, .schedule, .callback 0, .dequeue, .callback 0, .callback 0,
    .dequeue, .sweep (.ofUnix 31) [1], .submit] ++ drained

/-- The queue overflows, and the callback sends the snapshot while its server is online. -/
theorem resent_staleFree :
    ((run State.step State.initial resent).evaluated.filter (·.server == 1)).map
        (fun e => (e.event.type, e.event.snapshot.online)) = [(.updated, true), (.offline, false)] ∧
      StaleFree (run State.step State.initial resent) :=
  ⟨by decide +kernel, staleFree_of_guarded resent (by decide +kernel)⟩

/-- Server 1 overflows the queue and goes offline before the callback reads its snapshot. -/
def relabelled : List (Action Exact) :=
  filled ++ [report 1 0, .submit, .schedule, .sweep (.ofUnix 31) [1], .submit, .schedule,
    .callback 0, .dequeue, .callback 0, .callback 0] ++ drained

/-- An enabled CPU rule of server 1. -/
def cpuRule : Rule Exact :=
  { id := 1, serverID := 1, metric := .cpuUsage, operator := .greaterThan, threshold := .fin 90
    durationSeconds := 0, repeatSeconds := 0, enabled := true, createdAt := .zero
    updatedAt := .zero }

/-- `EvaluateNow` takes the CPU rule to `Evaluate` with the offline snapshot. -/
theorem relabelled_stale : ¬ StaleFree (run State.step State.initial relabelled) := by
  have hany : (run State.step State.initial relabelled).evaluated.any (fun e =>
      decide (e.event.type = .updated) && !e.event.snapshot.online && e.server == 1) = true := by
    decide +kernel
  obtain ⟨e, he, hprops⟩ := List.any_eq_true.mp hany
  simp only [Bool.and_eq_true, decide_eq_true_eq, Bool.not_eq_true', beq_iff_eq] at hprops
  obtain ⟨⟨htype, honline⟩, hserver⟩ := hprops
  intro h
  have hlisted : cpuRule ∈ listedRules e.event false (Database.empty.insertRule cpuRule) := by
    rw [listedRules, show e.event.snapshot.serverID = 1 from hserver]
    decide +kernel
  have := h e he (Database.empty.insertRule cpuRule) false
    { getStateFails := false, saveFails := false, now := .zero, savedAt := .zero
      webhook := .error .notFound } cpuRule hlisted rfl (by rw [reaches, htype]; rfl)
  rw [honline] at this
  cases this

end TinyProbe.Alerting.Queue
