import TinyProbe.Live.Store
import TinyProbe.Lib.Run
import TinyProbe.Lib.Stream

/-!
# From publications to evaluations

The path an event takes to `EvaluateNow`: the coordinator updates the live store and submits its
events one by one, `Submit` puts an event into the bounded queue or leaves it to a timer
(`scheduleLatest`), the timer's callback reads the latest snapshot and tries the queue again, and
`Run` takes events off the queue. Every step that another goroutine can come between is an action
of its own, so a list of actions is an interleaving.

Publications are numbered per server (`version`), in the order in which the coordinator makes them.
The numbers, the log of publications and the log of evaluations are bookkeeping of the model: no
step looks at them. `evaluated ++ queue` is the stream of everything that has entered the queue.
-/

namespace TinyProbe.Alerting.Queue

open TinyProbe.Live TinyProbe.Stream

variable {F : Type}

/-- An event, and the number of the publication its snapshot comes from. -/
structure Entry (F : Type) where
  event : Live.Event F
  version : Nat

def Entry.server (e : Entry F) : Int := e.event.snapshot.serverID

/-- Where a callback of `scheduleLatest` stands between its steps. -/
inductive Phase (F : Type) where
  /-- The timer has not run out. -/
  | armed
  /-- `Get` has answered; the non-blocking send comes next. -/
  | read (got : Option (Snapshot F)) (version : Nat)
  /-- The event was sent, or there was no snapshot; the server is still pending. -/
  | sent (version : Nat)
  /-- The queue was full; the server is still pending. -/
  | failed
  /-- The server is no longer pending; the call of `scheduleLatest` comes next. -/
  | retry

structure Callback (F : Type) where
  server : Int
  phase : Phase F

structure State (F : Type) where
  store : Store F
  version : Int → Nat
  /-- The events the coordinator has still to submit; it holds its lock until there is none. -/
  publishing : List (Entry F)
  published : List (Entry F)
  /-- The server of a `Submit` that found the queue full and is about to call `scheduleLatest`. -/
  dropped : Option Int
  queue : List (Entry F)
  pending : Int → Bool
  callbacks : Map Nat (Callback F)
  nextCallback : Nat
  evaluated : List (Entry F)

/-- `evaluationQueueCapacity`. -/
def evaluationQueueCapacity : Nat := 128

/-- One step. A sweep is given the order in which the changed servers come out of the map. -/
inductive Action (F : Type) where
  | accept (server : Servers.Server) (report : Protocol.AgentReport F) (receivedAt : Time)
      (sourceIP : String)
  | sweep (cutoff : Time) (order : List Int)
  | submit
  | schedule
  | dequeue
  | callback (id : Nat)

namespace State

def initial : State F :=
  { store := .empty, version := fun _ => 0, publishing := [], published := [], dropped := none
    queue := [], pending := fun _ => false, callbacks := ∅, nextCallback := 0, evaluated := [] }

/-- The coordinator's lock is free. -/
def unlocked (q : State F) : Bool := q.publishing.isEmpty && q.dropped.isNone

/-- Everything that has entered the queue. -/
def stream (q : State F) : List (Entry F) := q.evaluated ++ q.queue

/-- What the coordinator does before it starts to submit: the store is updated, and the events to
submit are numbered. -/
def publish (q : State F) (store : Store F) (events : List (Live.Event F)) : State F :=
  { q with
    store
    version := fun id =>
      if id ∈ events.map (·.snapshot.serverID) then q.version id + 1 else q.version id
    publishing := events.map fun event => ⟨event, q.version event.snapshot.serverID + 1⟩ }

/-- `Accept`. -/
def accept (q : State F) (server : Servers.Server) (report : Protocol.AgentReport F)
    (receivedAt : Time) (sourceIP : String) : State F :=
  let (snapshot, store) := q.store.upsertFrom server report receivedAt sourceIP
  q.publish store [⟨.updated, snapshot⟩]

/-- The snapshots a sweep changes, in an order of their servers. -/
def changedIn (q : State F) (cutoff : Time) (order : List Int) : List (Snapshot F) :=
  order.filterMap fun id => (q.store.markOffline cutoff).1.find? (·.serverID == id)

/-- `Sweep`. -/
def sweep (q : State F) (cutoff : Time) (order : List Int) : State F :=
  q.publish (q.store.markOffline cutoff).2 ((q.changedIn cutoff order).map fun snapshot =>
    ⟨.offline, snapshot⟩)

/-- The non-blocking send of `Submit` and of the callback. -/
def send (q : State F) (e : Entry F) : Option (State F) :=
  if q.queue.length < evaluationQueueCapacity then some { q with queue := q.queue ++ [e] } else none

/-- `Submit`, as far as its call of `scheduleLatest`. -/
def submit (q : State F) : State F :=
  match q.dropped, q.publishing with
  | none, e :: publishing =>
    let q := { q with publishing, published := q.published ++ [e] }
    match q.send e with
    | some q => q
    | none => { q with dropped := some e.server }
  | _, _ => q

/-- The server becomes pending and gets a timer. -/
def arm (q : State F) (serverID : Int) : State F :=
  { q with
    pending := Function.update q.pending serverID true
    callbacks := q.callbacks.insert q.nextCallback ⟨serverID, .armed⟩
    nextCallback := q.nextCallback + 1 }

/-- `scheduleLatest`, as far as the timer. -/
def scheduleLatest (q : State F) (serverID : Int) : State F :=
  if serverID < 1 then q
  else if q.pending serverID then q
  else q.arm serverID

/-- A callback moves on to its next phase. -/
def enter (q : State F) (id : Nat) (serverID : Int) (phase : Phase F) : State F :=
  { q with callbacks := q.callbacks.insert id ⟨serverID, phase⟩ }

/-- `delete(e.pending, serverID)`. -/
def release (q : State F) (serverID : Int) : State F :=
  { q with pending := Function.update q.pending serverID false }

/-- A callback has returned. -/
def forget (q : State F) (id : Nat) : State F := { q with callbacks := q.callbacks.erase id }

/-- The callback of a timer, one step. -/
def callback (q : State F) (id : Nat) : State F :=
  match AList.lookup id q.callbacks with
  | none => q
  | some ⟨serverID, phase⟩ =>
    match phase with
    | .armed => q.enter id serverID (.read (q.store.get serverID) (q.version serverID))
    | .read none _ => q.enter id serverID (.sent 0)
    | .read (some snapshot) version =>
      match q.send ⟨⟨.updated, snapshot⟩, version⟩ with
      | some q => q.enter id serverID (.sent version)
      | none => q.enter id serverID .failed
    | .sent _ => (q.release serverID).forget id
    | .failed => (q.release serverID).enter id serverID .retry
    | .retry => (q.forget id).scheduleLatest serverID

def step (q : State F) : Action F → State F
  | .accept server report receivedAt sourceIP =>
    if q.unlocked then q.accept server report receivedAt sourceIP else q
  | .sweep cutoff order =>
    if q.unlocked && decide (order.Perm ((q.store.markOffline cutoff).1.map Snapshot.serverID)) then
      q.sweep cutoff order
    else q
  | .submit => q.submit
  | .schedule =>
    match q.dropped with
    | none => q
    | some serverID => scheduleLatest { q with dropped := none } serverID
  | .dequeue =>
    match q.queue with
    | [] => q
    | e :: queue => { q with queue, evaluated := q.evaluated ++ [e] }
  | .callback id => q.callback id

end State

/-! ## What the steps leave -/

section Laws

variable {q : State F}

@[simp] theorem evaluated_submit : q.submit.evaluated = q.evaluated := by
  unfold State.submit
  split
  next =>
    simp only [State.send]
    split
    next h =>
      split at h
      next => cases h; rfl
      next => cases h
    next => rfl
  next => rfl

/-- Nobody holds the coordinator's lock when there is nothing to submit or to make up for. -/
theorem unlocked_iff : q.unlocked = true ↔ q.publishing = [] ∧ q.dropped = none := by
  rw [State.unlocked, Bool.and_eq_true, List.isEmpty_iff, Option.isNone_iff_eq_none]

/-- What a sweep publishes is what `MarkOffline` has returned. -/
theorem mem_changedIn {cutoff : Time} {order : List Int} {snapshot : Snapshot F}
    (h : snapshot ∈ q.changedIn cutoff order) : snapshot ∈ (q.store.markOffline cutoff).1 :=
  Store.mem_of_mem_swept h

/-- The servers of the events of a sweep. -/
theorem serverID_swept {cutoff : Time} {order : List Int}
    (hperm : order.Perm ((q.store.markOffline cutoff).1.map Snapshot.serverID)) :
    ((q.changedIn cutoff order).map fun snapshot =>
      (⟨.offline, snapshot⟩ : Live.Event F)).map (·.snapshot.serverID) = order := by
  rw [List.map_map]
  exact Store.map_serverID_swept hperm.subset

end Laws

/-! ## Steps of concrete runs -/

/-- A report of a server at `t` seconds. -/
def report (serverID t : Int) : Action Exact :=
  .accept ⟨serverID, "", true⟩ (.ofCPU (.fin 0)) (.ofUnix t) ""

/-- Reports of server 2 fill the queue. -/
def filled : List (Action Exact) :=
  (List.replicate evaluationQueueCapacity [report 2 100, .submit]).flatten

def drained : List (Action Exact) := List.replicate evaluationQueueCapacity .dequeue

end TinyProbe.Alerting.Queue
