import TinyProbe.History.Aggregator
import TinyProbe.Live.Store
import TinyProbe.Servers.Registry

/-!
# The coordinator

`Accept`, `Sweep`, `ReconcileUpdate` and `ReconcileDelete` hold the coordinator's lock from their
first step to their last. What does not take the lock can come between any two of their steps:
registrations, token rotations, and the flushes that write history. An action is a step of the call
that holds the lock, or of one of the others, so a list of actions is an interleaving.

The database enforces the foreign key of `metric_minutes`: deleting a server deletes its rows, and a
row of a server that is not registered is refused.

`entered`, `returned`, `installed`, `revokedServers` and `revokedTokens` are records of the run that
no step looks at: what a call found when it took the lock, the calls that have returned, each step
that wrote, published or recorded a report and whether its credential was revoked by then, and what
the calls that have returned have revoked.
-/

namespace TinyProbe.Live

open Servers Protocol History

variable {F : Type}

/-- The arguments of `Accept`. -/
structure Call (F : Type) where
  token : Token
  report : AgentReport F
  receivedAt : Time
  sourceIP : String

/-- A call of the coordinator. `update` has the arguments of `Service.Update`, with the name
trimmed. -/
inductive Op (F : Type) where
  | accept (call : Call F)
  | sweep (cutoff : Time)
  | update (id : Int) (name : Option String) (enabled : Option Bool)
  | delete (id : Int)

/-- The step that comes next for the call that holds the lock. -/
inductive Phase (F : Type) where
  /-- `AuthenticateToken`. -/
  | authenticating (call : Call F)
  /-- `UpdateAgentVersion`. -/
  | versioning (call : Call F) (server : Server)
  /-- `UpsertFrom`. -/
  | storing (call : Call F) (server : Server)
  /-- `publish` of an accepted report. -/
  | publishing (call : Call F) (server : Server) (snapshot : Snapshot F)
  /-- `history.Accept`. -/
  | recording (call : Call F) (server : Server)
  /-- `publish` of the first of these, or the return. -/
  | sweeping (todo : List (Snapshot F))
  /-- The mutation of `Service.Update`. -/
  | updating (id : Int) (name : Option String) (enabled : Option Bool)
  /-- `rename`. -/
  | renaming (server : Server)
  /-- The mutation of `Service.Delete`. -/
  | deleting (id : Int)
  /-- `delete`. -/
  | dropping (id : Int)
  /-- `historyRemove.RemoveServer`. -/
  | removing (id : Int)

/-- What a call of the coordinator can change besides the registry: the live store, the events
published, and the reports history has taken in and not removed. -/
structure View (F : Type) where
  store : Store F
  published : List (Event F)
  accepted : List (Sample F)

/-- The call that holds the lock. -/
structure Holder (F : Type) where
  op : Op F
  phase : Phase F
  entered : View F

/-- A call that has returned. -/
structure Returned (F : Type) where
  op : Op F
  ok : Bool
  before : View F
  after : View F

/-- What a step of `Accept` does with a report. -/
inductive Effect where
  | stored
  | published
  | recorded
deriving DecidableEq

/-- A step that installed a report. -/
structure Installed where
  effect : Effect
  token : Token
  serverID : Int
  revoked : Bool
deriving DecidableEq

/-- What a process finds in its database when it starts. -/
structure Tables (F : Type) where
  registry : Registry
  rows : Map Key (MinutePayload F)

/-- A database with one server, of id 1 and token 0. -/
def Tables.oneServer : Tables Exact := { registry := Registry.empty.insert "web", rows := ∅ }

/-- The coordinator, with the registry and the history it works on. -/
structure Coordinator (F : Type) [Float64 F] where
  registry : Registry
  store : Store F
  published : List (Event F)
  history : Aggregator F
  holder : Option (Holder F)
  /-- The old tokens of the rotations that have committed and not returned. -/
  rotating : List Token
  returned : List (Returned F)
  installed : List Installed
  revokedServers : List Int
  revokedTokens : List Token

/-- One step. A sweep is given the order in which the changed servers come out of the map, and the
step of the call that holds the lock how its statement ends, should it make one. -/
inductive Action (F : Type) where
  | accept (call : Call F)
  | sweep (cutoff : Time) (order : List Int)
  | update (id : Int) (name : Option String) (enabled : Option Bool)
  | delete (id : Int)
  | proceed (outcome : Outcome)
  | create (name : String) (outcome : Outcome)
  | rotate (id : Int) (outcome : Outcome)
  /-- The rotation that replaced a token returns. -/
  | rotated (token : Token)
  /-- A step of a call of `FlushBefore`. -/
  | flush (a : Aggregator.Action F)

namespace Coordinator

variable [Float64 F]

/-- `NewCoordinator`, with history, on the tables of the database. -/
def initial (tables : Tables F) : Coordinator F :=
  { registry := tables.registry, store := .empty, published := []
    history := { Aggregator.initial with rows := tables.rows }
    holder := none, rotating := [], returned := [], installed := [], revokedServers := []
    revokedTokens := [] }

def view (s : Coordinator F) : View F := ⟨s.store, s.published, s.history.accepted⟩

/-- A call takes the lock. -/
def lock (s : Coordinator F) (op : Op F) (phase : Phase F) : Coordinator F :=
  match s.holder with
  | some _ => s
  | none => { s with holder := some ⟨op, phase, s.view⟩ }

/-- The call goes on to its next step. -/
def enter (s : Coordinator F) (h : Holder F) (phase : Phase F) : Coordinator F :=
  { s with holder := some { h with phase } }

/-- The call returns. -/
def finish (s : Coordinator F) (h : Holder F) (ok : Bool) : Coordinator F :=
  { s with holder := none, returned := s.returned ++ [⟨h.op, ok, h.entered, s.view⟩] }

/-- `publish`: the hub and the observers get the event. -/
def publish (s : Coordinator F) (event : Event F) : Coordinator F :=
  { s with published := s.published ++ [event] }

/-- A returned call has revoked the credential of a report. -/
def revoked (s : Coordinator F) (token : Token) (serverID : Int) : Bool :=
  decide (token ∈ s.revokedTokens) || decide (serverID ∈ s.revokedServers)

/-- A step has installed the report of a call. -/
def install (s : Coordinator F) (effect : Effect) (call : Call F) (server : Server) :
    Coordinator F :=
  { s with
    installed := s.installed ++
      [⟨effect, call.token, server.id, s.revoked call.token server.id⟩] }

/-- The rows that a statement deleting a server leaves: those of the server go with it. -/
def cascade (s : Coordinator F) (id : Int) (outcome : Outcome) : Map Key (MinutePayload F) :=
  if outcome.applied ∧ (s.registry.row? id).isSome then
    s.history.rows.filterKeys fun key => key.serverID != id
  else s.history.rows

/-- The servers still disabled after an update: one that is enabled again has its credential
back. -/
def stillRevoked (s : Coordinator F) (id : Int) (enabled : Option Bool) (outcome : Outcome) :
    List Int :=
  if outcome.applied ∧ enabled = some true ∧ (s.registry.row? id).isSome then
    s.revokedServers.filter (· != id)
  else s.revokedServers

/-- The step of the call that holds the lock. -/
def proceed (s : Coordinator F) (h : Holder F) (outcome : Outcome) : Coordinator F :=
  match h.phase with
  | .authenticating call =>
    match Service.authenticateToken s.registry call.token (decide (outcome ≠ .ok)) with
    | .error _ => s.finish h false
    | .ok server => s.enter h (.versioning call server)
  | .versioning call server =>
    match Service.updateAgentVersion s.registry server.id call.report.agentVersion outcome with
    | (.error _, registry) => { s with registry }.finish h false
    | (.ok _, registry) => { s with registry }.enter h (.storing call server)
  | .storing call server =>
    let (snapshot, store) := s.store.upsertFrom server call.report call.receivedAt call.sourceIP
    ({ s with store }.install .stored call server).enter h (.publishing call server snapshot)
  | .publishing call server snapshot =>
    ((s.publish ⟨.updated, snapshot⟩).install .published call server).enter h
      (.recording call server)
  | .recording call server =>
    ({ s with history := s.history.step (.accept server.id call.report call.receivedAt) }.install
      .recorded call server).finish h true
  | .sweeping [] => s.finish h true
  | .sweeping (snapshot :: todo) =>
    (s.publish ⟨.offline, snapshot⟩).enter h (.sweeping todo)
  | .updating id name enabled =>
    let s' := { s with revokedServers := s.stillRevoked id enabled outcome }
    match Service.update s.registry id name enabled outcome with
    | (.error _, registry) => { s' with registry }.finish h false
    | (.ok server, registry) => { s' with registry }.enter h (.renaming server)
  | .renaming server =>
    { s with
      store := s.store.rename server.id server.name
      revokedServers := if server.enabled then s.revokedServers
        else server.id :: s.revokedServers }.finish h true
  | .deleting id =>
    let s' := { s with history := { s.history with rows := s.cascade id outcome } }
    match Service.delete s.registry id outcome with
    | (.error _, registry) => { s' with registry }.finish h false
    | (.ok _, registry) => { s' with registry }.enter h (.dropping id)
  | .dropping id => { s with store := s.store.delete id }.enter h (.removing id)
  | .removing id =>
    { s with
      history := s.history.step (.removeServer id)
      revokedServers := id :: s.revokedServers }.finish h true

/-- The candidate a flush is about to write. -/
def nextWrite (history : Aggregator F) (f : Nat) : Option (Candidate F) :=
  (history.flush? f).bind fun fl =>
    match fl.phase with
    | .writing (c :: _) _ => some c
    | _ => none

/-- The write of a candidate goes through to the table. -/
def admits (s : Coordinator F) (f : Nat) : Bool :=
  (nextWrite s.history f).all fun c => (s.registry.row? c.key.serverID).isSome

/-- The error of a violated foreign key. -/
def foreignKey : FlushError := .write "FOREIGN KEY constraint failed"

/-- A step of a flush. -/
def flush (s : Coordinator F) : Aggregator.Action F → Coordinator F
  | .accept _ _ _ | .removeServer _ => s
  | .write f err stored =>
    { s with
      history := s.history.step <|
        if s.admits f then .write f err stored else .write f (some (err.getD foreignKey)) false }
  | a => { s with history := s.history.step a }

/-- `RotateTokenWithServer`, as far as its commit. -/
def rotate (s : Coordinator F) (id : Int) (outcome : Outcome) : Coordinator F :=
  match Service.rotateTokenWithServer s.registry id outcome with
  | (.error _, registry) => { s with registry }
  | (.ok _, registry) =>
    { s with registry, rotating := s.rotating ++ ((s.registry.row? id).map Row.token).toList }

def step (s : Coordinator F) : Action F → Coordinator F
  | .accept call => s.lock (.accept call) (.authenticating call)
  | .sweep cutoff order =>
    if decide (order.Perm ((s.store.markOffline cutoff).1.map Snapshot.serverID)) then
      match s.holder with
      | some _ => s
      | none =>
        { s.lock (.sweep cutoff) (.sweeping (s.store.swept cutoff order)) with
          store := (s.store.markOffline cutoff).2 }
    else s
  | .update id name enabled =>
    match Service.checkUpdate name enabled with
    | .error _ => s
    | .ok name => s.lock (.update id name enabled) (.updating id name enabled)
  | .delete id => s.lock (.delete id) (.deleting id)
  | .proceed outcome =>
    match s.holder with
    | none => s
    | some h => s.proceed h outcome
  | .create name outcome => { s with registry := (Service.create s.registry name outcome).2 }
  | .rotate id outcome => s.rotate id outcome
  | .rotated token =>
    if token ∈ s.rotating then
      { s with rotating := s.rotating.erase token, revokedTokens := token :: s.revokedTokens }
    else s
  | .flush a => s.flush a

end Coordinator

end TinyProbe.Live
