import TinyProbe.Alerting.Handler
import TinyProbe.Alerting.Queue

/-!
# Repeat reminders of offline rules

The composition of four parts: the coordinator publishes, the sweeper marks servers offline, the
queue hands the events over and `EvaluateNow` advances the rules. Runs in which the queue has room
for every event and no store call fails (`Smooth`) need no timer, so the steps here are the four.

A server is marked offline once: the next event about it is a report. The events of a server
therefore alternate as far as offline is concerned (`Trail`), an offline rule sees one breach for
each outage, and the repeat branch of `Evaluate` is not reached however long the outage lasts. What
is left of a reminder is the first notification, so whenever everything published has been
evaluated, reminders are honoured at an instant exactly when every outage that has an offline rule
with a repeat is younger than that repeat (`honoured_iff_recent`).
-/

namespace TinyProbe.Alerting

open TinyProbe.Run TinyProbe.Stream TinyProbe.Live Queue

variable {F : Type}

/-! ## The events of a server -/

namespace Queue

/-- Everything published, in order, when nothing has overflowed. -/
def State.line (q : State F) : List (Entry F) := q.stream ++ q.publishing

def Entry.online (e : Entry F) : Bool := e.event.snapshot.online

/-- Nothing has overflowed, an offline event of a server comes right after one that was not, and the
last event of a server says what the store does. -/
structure Trail (q : State F) : Prop where
  undropped : q.dropped = none
  keyed : q.store.Keyed
  follows : Follows Entry.server (·.online = false) (·.online = true) q.line
  latest : ∀ s, (lastOf Entry.server s q.line).map Entry.online =
    (q.store.get s).map Snapshot.online

section Trail

variable {q : State F}

private theorem trail_initial : Trail (State.initial : State F) where
  undropped := rfl
  keyed := Store.keyed_empty
  follows := follows_nil
  latest := fun s => by
    rw [show (State.initial : State F).store.get s = none from Store.get_empty s]
    rfl

/-- A round of publications goes on the trail of each server, and an outage is published once. -/
theorem Trail.publish (h : Trail q) (hidle : q.publishing = []) {store : Store F}
    (hkeyed : store.Keyed) {events : List (Live.Event F)}
    (hids : (events.map (·.snapshot.serverID)).Nodup)
    (hget : ∀ e ∈ events,
      (store.get e.snapshot.serverID).map Snapshot.online = some e.snapshot.online)
    (hoff : ∀ e ∈ events, e.snapshot.online = false →
      (q.store.get e.snapshot.serverID).map Snapshot.online = some true)
    (hrest : ∀ s ∉ events.map (·.snapshot.serverID),
      (store.get s).map Snapshot.online = (q.store.get s).map Snapshot.online) :
    Trail (q.publish store events) := by
  have hline : (q.publish store events).line = q.line ++ (q.publish store events).publishing := by
    simp only [State.line, hidle, List.append_nil]
    rfl
  have hservers : (q.publish store events).publishing.map Entry.server =
      events.map (·.snapshot.serverID) := by
    simp only [State.publish, List.map_map]
    rfl
  have hentry : ∀ e ∈ (q.publish store events).publishing, e.event ∈ events := fun e he => by
    obtain ⟨event, hevent, rfl⟩ := List.mem_map.mp he
    exact hevent
  refine ⟨h.undropped, hkeyed, ?_, fun s => ?_⟩
  · rw [hline]
    refine h.follows.append (hservers ▸ hids) fun e he honline => ?_
    have hlast := h.latest e.server
    rw [show (q.store.get e.server).map Snapshot.online = some true from
      hoff _ (hentry e he) honline] at hlast
    exact Option.map_eq_some_iff.mp hlast
  · rw [hline]
    by_cases hs : s ∈ events.map (·.snapshot.serverID)
    · rw [← hservers] at hs
      obtain ⟨e, he, rfl⟩ := List.mem_map.mp hs
      rw [lastOf_append_of_mem (hservers ▸ hids) he]
      exact (hget _ (hentry e he)).symm
    · have hne : ∀ e ∈ (q.publish store events).publishing, e.server ≠ s := fun e he heq =>
        hs (hservers ▸ heq ▸ List.mem_map_of_mem he)
      rw [lastOf_append_of_ne hne, h.latest s]
      exact (hrest s hs).symm

/-- A report is an online publication of its server. -/
theorem Trail.accept (h : Trail q) (hidle : q.publishing = []) (server : Servers.Server)
    (report : Protocol.AgentReport F) (t : Time) (ip : String) :
    Trail (q.accept server report t ip) := by
  refine h.publish hidle (h.keyed.upsertFrom server report t ip) (List.nodup_singleton _) ?_ ?_ ?_
  · intro e he
    rw [List.mem_singleton.mp he, Store.get_upsertFrom]
    exact congrArg (Option.map Snapshot.online) (if_pos rfl)
  · intro e he honline
    rw [List.mem_singleton.mp he] at honline
    cases honline
  · intro s hs
    have hne : s ≠ server.id := fun heq => hs (List.mem_singleton.mpr heq)
    rw [Store.get_upsertFrom, if_neg hne]

/-- A sweep publishes an outage only of a server that was online. -/
theorem Trail.sweep (h : Trail q) (hidle : q.publishing = []) {cutoff : Time} {order : List Int}
    (hperm : order.Perm ((q.store.markOffline cutoff).1.map Snapshot.serverID)) :
    Trail (q.sweep cutoff order) := by
  refine h.publish hidle (h.keyed.markOffline cutoff) ?_ ?_ ?_ ?_
  · rw [serverID_swept hperm]
    exact hperm.nodup_iff.mpr (Store.nodup_markOffline h.keyed cutoff)
  · intro e he
    obtain ⟨snapshot, hmem, rfl⟩ := List.mem_map.mp he
    rw [Store.get_of_changed h.keyed (mem_changedIn hmem)]
    rfl
  · intro e he _
    obtain ⟨snapshot, hmem, rfl⟩ := List.mem_map.mp he
    obtain ⟨old, hold, hexp, _⟩ := (Store.mem_markOffline h.keyed).mp (mem_changedIn hmem)
    rw [hold, Option.map_some, (Bool.and_eq_true_iff.mp hexp).1]
  · intro s hs
    rw [serverID_swept hperm] at hs
    rw [Store.get_of_not_changed h.keyed fun hmem => hs (hperm.mem_iff.mpr hmem)]

/-- Steps that only move events along the line. -/
theorem Trail.congr {q' : State F} (h : Trail q) (hdropped : q'.dropped = none)
    (hstore : q'.store = q.store) (hline : q'.line = q.line) : Trail q' :=
  ⟨hdropped, hstore ▸ h.keyed, hline ▸ h.follows, fun s => by rw [hline, hstore, h.latest s]⟩

/-- With room in the queue a submission enters it, and nothing is lost. -/
theorem Trail.submit (h : Trail q)
    (hroom : q.publishing ≠ [] → q.queue.length < evaluationQueueCapacity) : Trail q.submit := by
  cases hpub : q.publishing with
  | nil =>
    have hsame : q.submit = q := by rw [State.submit, h.undropped, hpub]
    rwa [hsame]
  | cons e publishing =>
    have hlt := hroom (by rw [hpub]; exact List.cons_ne_nil e publishing)
    have hsubmit : q.submit =
        { q with publishing, published := q.published ++ [e], queue := q.queue ++ [e] } := by
      rw [State.submit, h.undropped, hpub]
      simp only [State.send, if_pos hlt]
    rw [hsubmit]
    refine h.congr h.undropped rfl ?_
    simp only [State.line, State.stream, hpub, List.append_assoc, List.singleton_append]

/-- The evaluator takes events in the order of the trail. -/
theorem Trail.dequeue (h : Trail q) {e : Entry F} {queue : List (Entry F)}
    (hq : q.queue = e :: queue) : Trail (q.step .dequeue) := by
  have hstep : q.step .dequeue = { q with queue, evaluated := q.evaluated ++ [e] } := by
    rw [State.step, hq]
  rw [hstep]
  refine h.congr h.undropped rfl ?_
  simp only [State.line, State.stream, hq, List.append_assoc, List.singleton_append]

end Trail

end Queue

/-! ## The pipeline -/

/-- The path of the events, the tables, and the clock readings of the turns that the last evaluated
event of each server was given. -/
structure Pipeline (F : Type) where
  queue : Queue.State F
  db : Database F
  seen : Int → Option (Int → Time)

namespace Pipeline

/-- One step. `evaluate` takes an event off the queue and evaluates it. -/
inductive Action (F : Type) where
  | accept (server : Servers.Server) (report : Protocol.AgentReport F) (receivedAt : Time)
      (sourceIP : String)
  | sweep (now : Time) (order : List Int)
  | submit
  | evaluate (listFails : Bool) (turns : Int → Turn)

/-- `now.Add(-offlineAfter)`. -/
def cutoffAt (now : Time) : Time := ⟨now.ns - 30 * 1000000000⟩

def initial (db : Database F) : Pipeline F := { queue := .initial, db, seen := fun _ => none }

variable [Float64 F]

def step (p : Pipeline F) : Action F → Pipeline F
  | .accept server report receivedAt sourceIP =>
    { p with queue := p.queue.step (.accept server report receivedAt sourceIP) }
  | .sweep now order => { p with queue := p.queue.step (.sweep (cutoffAt now) order) }
  | .submit => { p with queue := p.queue.submit }
  | .evaluate listFails turns =>
    match p.queue.queue with
    | [] => p
    | e :: _ =>
      { queue := p.queue.step .dequeue
        db := (evaluateNow e.event listFails turns p.db).2
        seen := Function.update p.seen e.server (some fun id => (turns id).now) }

omit [Float64 F] in
/-- The queue has room for every event, and no store call fails. -/
def Smooth (p : Pipeline F) : Action F → Prop
  | .submit => p.queue.publishing ≠ [] → p.queue.queue.length < evaluationQueueCapacity
  | .evaluate listFails turns =>
    listFails = false ∧ ∀ id, (turns id).getStateFails = false ∧ (turns id).saveFails = false
  | _ => True

omit [Float64 F] in
/-- What an offline rule remembers of the last evaluated event of its server. -/
def Told (p : Pipeline F) (rule : Rule F) (e : Entry F) : Prop :=
  if e.online then (p.db.statusOf rule.id).idle = true
  else p.db.statusOf rule.id = .firing ∧ ∃ clock, p.seen rule.serverID = some clock ∧
    (p.db.stateOf rule.id).lastNotifiedAt = some (clock rule.id)

/-- The invariant of smooth runs. -/
structure Inv (p : Pipeline F) : Prop where
  trail : Trail p.queue
  scans : Repository.Scans p.db
  rows : RowsNormalized p.db
  told : ∀ rule ∈ p.db.rules, rule.enabled = true → rule.metric = .offline →
    ∀ e, lastOf Entry.server rule.serverID p.queue.evaluated = some e → p.Told rule e

section Step

variable {p : Pipeline F}

private theorem inv_initial {db : Database F} (hscans : Repository.Scans db)
    (hrows : RowsNormalized db) : Inv (initial db) :=
  ⟨trail_initial, hscans, hrows, fun _ _ _ _ _ h => nomatch h⟩

/-- A step of the coordinator. -/
theorem Inv.publish (h : Inv p) {q : Queue.State F} (htrail : Trail q)
    (hevaluated : q.evaluated = p.queue.evaluated) : Inv { p with queue := q } :=
  ⟨htrail, h.scans, h.rows, fun rule hrule henabled hm e he =>
    h.told rule hrule henabled hm e (hevaluated ▸ he)⟩

/-- **An event tells the offline rules of its server**: a report calms them, and since an offline
event finds them calm they fire at it. -/
theorem told_evaluate (h : Inv p) {e : Entry F} {queue : List (Entry F)}
    (hq : p.queue.queue = e :: queue) {turns : Int → Turn}
    (hok : ∀ id, (turns id).getStateFails = false ∧ (turns id).saveFails = false)
    {rule : Rule F} (hrule : rule ∈ p.db.rules) (henabled : rule.enabled = true)
    (hm : rule.metric = .offline) (hserver : rule.serverID = e.server) :
    (step p (.evaluate false turns)).Told rule e := by
  have hstate := stateOf_evaluateNow h.scans (fun id => (hok id).1) (fun id => (hok id).2) hrule
    hserver henabled fun _ => hm
  have hbreached := breached_offline_iff (h.rows rule hrule) hm e.event
  unfold Told
  simp only [step, hq, Database.statusOf, hstate]
  split
  next honline =>
    rw [show e.event.snapshot.online = true from honline] at hbreached
    exact evaluate_calm hbreached
  next honline =>
    have hoff : e.online = false := Bool.not_eq_true _ ▸ honline
    rw [show e.event.snapshot.online = false from hoff] at hbreached
    obtain ⟨before, hlast, hbefore⟩ := h.trail.follows p.queue.evaluated e
      (queue ++ p.queue.publishing)
      (by simp only [State.line, State.stream, hq, List.append_assoc, List.cons_append]) hoff
    have hidle := h.told rule hrule henabled hm before (hserver ▸ hlast)
    rw [Told, if_pos hbefore] at hidle
    obtain ⟨hfiring, _, _, hnotified⟩ := @evaluate_idle_fire _
      (inputFor rule e.event (turns rule.id).now (p.db.stateOf rule.id)) hidle hbreached
      (Int64.le_of_eq (durationForRule_offline hm))
    refine ⟨hfiring, fun id => (turns id).now, ?_, hnotified⟩
    rw [hserver, Function.update_self]

/-- An evaluation whose calls succeed gives each rule of the server one turn. -/
theorem inv_evaluate (h : Inv p) {turns : Int → Turn}
    (hok : ∀ id, (turns id).getStateFails = false ∧ (turns id).saveFails = false) :
    Inv (step p (.evaluate false turns)) := by
  cases hq : p.queue.queue with
  | nil =>
    have hsame : step p (.evaluate false turns) = p := by simp only [step, hq]
    rwa [hsame]
  | cons e queue =>
    have hdb : (step p (.evaluate false turns)).db = (evaluateNow e.event false turns p.db).2 := by
      simp only [step, hq]
    have hqueue : (step p (.evaluate false turns)).queue = p.queue.step .dequeue := by
      simp only [step, hq]
    have hevaluated : (p.queue.step .dequeue).evaluated = p.queue.evaluated ++ [e] := by
      simp only [State.step, hq]
    refine ⟨hqueue ▸ h.trail.dequeue hq, hdb ▸ scans_evaluateNow h.scans _ _, ?_, ?_⟩
    · rw [RowsNormalized, hdb, rules_evaluateNow]
      exact h.rows
    · rw [hdb, rules_evaluateNow, hqueue, hevaluated]
      intro rule hrule henabled hm x hx
      rw [lastOf_snoc] at hx
      split at hx
      next hserver =>
        cases hx
        exact told_evaluate h hq hok hrule henabled hm hserver.symm
      next hserver =>
        have htold := h.told rule hrule henabled hm x hx
        have hstate := stateOf_evaluateNow_ne e.event false turns hrule (Ne.symm hserver)
        unfold Told at htold ⊢
        simp only [step, hq, Database.statusOf, hstate] at htold ⊢
        rwa [Function.update_of_ne (Ne.symm hserver)]

/-- **The step** of a run in which the queue has room and no store call fails. -/
theorem inv_step {a : Action F} (hok : Smooth p a) (h : Inv p) : Inv (step p a) := by
  cases a with
  | accept server report t ip =>
    simp only [step, State.step]
    split
    next hfree =>
      exact h.publish (h.trail.accept (unlocked_iff.mp hfree).1 server report t ip) rfl
    next => exact h
  | sweep now order =>
    simp only [step, State.step]
    split
    next hfree =>
      rw [Bool.and_eq_true, decide_eq_true_eq] at hfree
      exact h.publish (h.trail.sweep (unlocked_iff.mp hfree.1).1 hfree.2) rfl
    next => exact h
  | submit => exact h.publish (h.trail.submit hok) evaluated_submit
  | evaluate listFails turns =>
    obtain ⟨rfl, hok⟩ := hok
    exact inv_evaluate h hok

end Step

/-! ## Reminders -/

omit [Float64 F] in
/-- Everything published has been evaluated. -/
def Drained (p : Pipeline F) : Prop := p.queue.publishing = [] ∧ p.queue.queue = []

omit [Float64 F] in
/-- The rules a reminder is owed for: enabled offline rules with a repeat whose server is stored
offline. -/
def Reminding (p : Pipeline F) (rule : Rule F) : Prop :=
  rule ∈ p.db.rules ∧ rule.enabled = true ∧ rule.metric = .offline ∧ 0 < rule.repeatSeconds ∧
    (p.queue.store.get rule.serverID).map Snapshot.online = some false

/-- `u` is later than `t` less a number of seconds. -/
def Within (t : Time) (seconds : Int) (u : Time) : Prop := t.ns - seconds * 1000000000 < u.ns

omit [Float64 F] in
/-- Reminders are honoured at `t`: each rule that is firing was notified within its repeat. -/
def Honoured (p : Pipeline F) (t : Time) : Prop :=
  ∀ rule, p.Reminding rule → p.db.statusOf rule.id = .firing →
    ∃ last, (p.db.stateOf rule.id).lastNotifiedAt = some last ∧ Within t rule.repeatSeconds last

omit [Float64 F] in
/-- The outages are recent at `t`: the last event of each server in question was evaluated within
the rule's repeat. -/
def Recent (p : Pipeline F) (t : Time) : Prop :=
  ∀ rule, p.Reminding rule →
    ∃ clock, p.seen rule.serverID = some clock ∧ Within t rule.repeatSeconds (clock rule.id)

omit [Float64 F] in
/-- In a drained state a rule a reminder is owed for is firing since its server's last event. -/
theorem Inv.firing [Float64 F] {p : Pipeline F} (h : Inv p) (hdrained : Drained p) {rule : Rule F}
    (hrule : p.Reminding rule) :
    p.db.statusOf rule.id = .firing ∧ ∃ clock, p.seen rule.serverID = some clock ∧
      (p.db.stateOf rule.id).lastNotifiedAt = some (clock rule.id) := by
  obtain ⟨hmem, henabled, hm, _, hoffline⟩ := hrule
  have hlast := h.trail.latest rule.serverID
  rw [hoffline, State.line, State.stream, hdrained.1, hdrained.2, List.append_nil,
    List.append_nil] at hlast
  obtain ⟨e, he, honline⟩ := Option.map_eq_some_iff.mp hlast
  have htold := h.told rule hmem henabled hm e he
  rwa [Told, if_neg (by rw [honline]; exact Bool.false_ne_true)] at htold

/-- **Reminders are honoured exactly as long as the outages are recent**, in every drained state of
every smooth run and at every instant, that of a sweep included. A server is marked offline once for
each outage, so the first notification is the only one, however long the outage lasts. -/
theorem honoured_iff_recent {db : Database F} (hscans : Repository.Scans db)
    (hrows : RowsNormalized db) (as : List (Action F))
    (h : Guarded step Smooth (initial db) as) (hdrained : Drained (run step (initial db) as))
    (t : Time) :
    Honoured (run step (initial db) as) t ↔ Recent (run step (initial db) as) t := by
  have hinv : Inv (run step (initial db) as) :=
    h.invariant (fun p _ hok (hi : Inv p) => inv_step hok hi) (inv_initial hscans hrows)
  constructor
  · intro hh rule hrule
    obtain ⟨hfiring, clock, hseen, hnotified⟩ := hinv.firing hdrained hrule
    obtain ⟨last, hlast, hwithin⟩ := hh rule hrule hfiring
    rw [hnotified] at hlast
    exact ⟨clock, hseen, Option.some.inj hlast ▸ hwithin⟩
  · intro hr rule hrule _
    obtain ⟨_, clock, hseen, hnotified⟩ := hinv.firing hdrained hrule
    obtain ⟨clock', hseen', hwithin⟩ := hr rule hrule
    rw [hseen] at hseen'
    exact ⟨_, hnotified, Option.some.inj hseen' ▸ hwithin⟩

/-! ## One outage -/

/-- An offline rule of server 1 that repeats every 300 s, as the API creates it. -/
def repeating : Rule Exact :=
  { id := 0, serverID := 1, metric := .offline, operator := .greaterThan, threshold := .fin 0
    durationSeconds := 0, repeatSeconds := 300, enabled := true, createdAt := .zero
    updatedAt := .zero }

private theorem repeating_normalized : Normalized repeating :=
  @normalizeRule_idem Exact _ { repeating with operator := .other "", durationSeconds := 300 } _ rfl

def repeatingDb : Database Exact := (Repository.createRule .empty .zero repeating false).2

/-- Each turn at `t` seconds, without a failure and without a webhook. -/
def turnsAt (t : Int) (_ : Int) : Turn :=
  { getStateFails := false, saveFails := false, now := .ofUnix t, savedAt := .ofUnix t
    webhook := .error .notFound }

/-- Server 1 reports once at 0 s; the sweep at 31 s marks it offline, the one at `t` seconds changes
nothing. -/
def outage (t : Int) : List (Action Exact) :=
  [.accept ⟨1, "", true⟩ (.ofCPU (.fin 0)) (.ofUnix 0) "", .submit, .evaluate false (turnsAt 0),
    .sweep (.ofUnix 31) [1], .submit, .evaluate false (turnsAt 31), .sweep (.ofUnix t) []]

private theorem outage_smooth (t : Int) : Guarded step Smooth (initial repeatingDb) (outage t) :=
  ⟨trivial, fun _ => by decide, ⟨rfl, fun _ => ⟨rfl, rfl⟩⟩, trivial, fun _ => by decide,
    ⟨rfl, fun _ => ⟨rfl, rfl⟩⟩, trivial, trivial⟩

/-- What the sweep at `t` seconds leaves. -/
def afterOutage (t : Int) : Pipeline Exact := run step (initial repeatingDb) (outage t)

private theorem scans_repeatingDb :
    Repository.Scans repeatingDb := Repository.scans_empty.createRule _ _

/-- An outage of 200 seconds is too short for the repetition, and the rule is honoured. -/
theorem outage_honoured :
    (afterOutage 200).Reminding { repeating with id := 1 } ∧
      Honoured (afterOutage 200) (.ofUnix 200) := by
  have hrecent : Recent (afterOutage 200) (.ofUnix 200) := fun rule hrule => by
    have hrow : rule = { repeating with id := 1 } := by
      have hrows : (afterOutage 200).db.rules = [{ repeating with id := 1 }] := by decide +kernel
      have hmem := hrule.1
      rw [hrows] at hmem
      exact List.mem_singleton.mp hmem
    subst hrow
    exact ⟨fun id => (turnsAt 31 id).now, by rfl, by unfold Within; decide +kernel⟩
  exact ⟨by unfold Reminding; decide +kernel,
    (honoured_iff_recent scans_repeatingDb
      (normalized_createRule normalized_empty repeating_normalized _ _) (outage 200)
      (outage_smooth 200) (by unfold Drained; decide +kernel) (.ofUnix 200)).mpr hrecent⟩

/-- The rule repeats every 300 s, the server has been offline since 31 s, and the sweep at 400 s
finds no reminder sent since. -/
theorem outage_not_honoured :
    Drained (afterOutage 400) ∧ ¬ Honoured (afterOutage 400) (.ofUnix 400) := by
  refine ⟨by unfold Drained; decide +kernel, fun h => ?_⟩
  obtain ⟨last, hlast, hwithin⟩ := h { repeating with id := 1 }
    (by unfold Reminding; decide +kernel) (by decide +kernel)
  have hnotified : ((afterOutage 400).db.stateOf 1).lastNotifiedAt = some (.ofUnix 31) := by
    decide +kernel
  have hsame : some last = some (Time.ofUnix 31) := hlast.symm.trans hnotified
  cases hsame
  exact absurd hwithin (by unfold Within; decide +kernel)

end Pipeline

end TinyProbe.Alerting
