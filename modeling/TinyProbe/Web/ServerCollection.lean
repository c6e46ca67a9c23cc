import TinyProbe.Lib.Map
import TinyProbe.Lib.Run
import Mathlib.Logic.Function.Basic

/-!
# The collection of servers

`useServerCollection`. Calls of `loadServers`, `updateServer`, `removeServer` and `addServer` come at
any time, and the request of a call is answered or fails at any time after it, with any answer. One
counter numbers the calls (`nextGeneration`); it tells them apart here too.

The functions passed to the setters of React read nothing but their argument, so they are run at once:
`servers` and `pendingByServer` are what they will be when React has run them.
-/

namespace TinyProbe.Web

open Run

structure ServerRecord where
  id : Int
  name : String
  enabled : Bool
  agentVersion : String
  createdAt : String
  updatedAt : String
deriving DecidableEq

inductive ServerPendingAction where
  | rename
  | toggle
  | delete
  | rotate
deriving DecidableEq

structure PendingServerRequest where
  action : ServerPendingAction
  generation : Nat
deriving DecidableEq

def replaceServer (servers : List ServerRecord) (next : ServerRecord) : List ServerRecord :=
  servers.map fun server => if server.id = next.id then next else server

inductive LoadState where
  | loading
  | success
  | error
deriving DecidableEq

namespace Collection

/-- What a call does. -/
inductive Kind where
  | load (revisionAtStart : Nat)
  | update (serverID : Int) (action : ServerPendingAction)
  | remove (serverID : Int)
deriving DecidableEq

/-- How a call has ended. -/
inductive Ending where
  /-- Its request is under way. -/
  | pending
  /-- `loadServers` has returned. -/
  | returned
  /-- `MutationResult`. -/
  | applied (applied : Bool)
  | thrown (error : String)
deriving DecidableEq

structure Call where
  kind : Kind
  ending : Ending
deriving DecidableEq

/-- The server of a mutation, and the action it is shown under. -/
def Kind.request? : Kind → Option (Int × ServerPendingAction)
  | .load _ => none
  | .update serverID action => some (serverID, action)
  | .remove serverID => some (serverID, .delete)

end Collection

open Collection

/-- What `useServerCollection` keeps, and the calls by their generations. -/
structure Collection where
  servers : List ServerRecord
  loadState : LoadState
  loadError : Option String
  pendingByServer : Map Int PendingServerRequest
  nextGeneration : Nat
  latestListGeneration : Nat
  latestServerGeneration : Map Int Nat
  mutationRevision : Nat
  calls : Nat → Option Call

namespace Collection

inductive Action where
  | loadServers
  | updateServer (serverID : Int) (action : ServerPendingAction)
  | removeServer (serverID : Int)
  | addServer (server : ServerRecord)
  /-- The request of a `loadServers` is answered. -/
  | listed (generation : Nat) (result : List ServerRecord)
  /-- The request of an `updateServer` is answered. -/
  | updated (generation : Nat) (updated : ServerRecord)
  /-- The request of a `removeServer` is answered. -/
  | removed (generation : Nat)
  /-- The request of a call fails. -/
  | failed (generation : Nat) (error : String)

def new : Collection :=
  { servers := [], loadState := .loading, loadError := none, pendingByServer := ∅
    nextGeneration := 0, latestListGeneration := 0, latestServerGeneration := ∅
    mutationRevision := 0, calls := fun _ => none }

def setCall (s : Collection) (generation : Nat) (call : Call) : Collection :=
  { s with calls := Function.update s.calls generation (some call) }

/-- `loadServers`, as far as the request. -/
def loadServers (s : Collection) : Collection :=
  let generation := s.nextGeneration + 1
  { s with
    nextGeneration := generation
    latestListGeneration := generation
    loadState := .loading
    loadError := none }.setCall generation ⟨.load s.mutationRevision, .pending⟩

def beginServerRequest (s : Collection) (serverID : Int) (action : ServerPendingAction)
    (kind : Kind) : Collection :=
  let generation := s.nextGeneration + 1
  { s with
    nextGeneration := generation
    mutationRevision := s.mutationRevision + 1
    latestServerGeneration := s.latestServerGeneration.insert serverID generation
    pendingByServer := s.pendingByServer.insert serverID { action, generation } }.setCall generation
      ⟨kind, .pending⟩

def isLatestServerRequest (s : Collection) (serverID : Int) (generation : Nat) : Bool :=
  AList.lookup serverID s.latestServerGeneration == some generation

def finishServerRequest (s : Collection) (serverID : Int) (generation : Nat) : Collection :=
  match AList.lookup serverID s.pendingByServer with
  | none => s
  | some current =>
    if current.generation ≠ generation then s
    else { s with pendingByServer := s.pendingByServer.erase serverID }

/-- `loadServers`, when the request is answered. -/
def listed (s : Collection) (generation revisionAtStart : Nat) (result : List ServerRecord) :
    Collection :=
  if s.latestListGeneration ≠ generation then s
  else
    { s with
      servers := if s.mutationRevision = revisionAtStart then result else s.servers
      loadState := .success }

/-- `loadServers`, when the request has failed. -/
def listFailed (s : Collection) (generation : Nat) (error : String) : Collection :=
  if s.latestListGeneration ≠ generation then s
  else { s with loadError := some error, loadState := .error }

/-- `updateServer` and `removeServer`, when the request is answered: `change` is what they pass to
`setServers`. -/
def mutated (s : Collection) (serverID : Int) (generation : Nat) (kind : Kind)
    (change : List ServerRecord → List ServerRecord) : Collection :=
  if s.isLatestServerRequest serverID generation then
    ({ s with
        mutationRevision := s.mutationRevision + 1
        servers := change s.servers }.setCall generation ⟨kind, .applied true⟩).finishServerRequest
      serverID generation
  else (s.setCall generation ⟨kind, .applied false⟩).finishServerRequest serverID generation

/-- The same, when the request has failed. -/
def mutationFailed (s : Collection) (serverID : Int) (generation : Nat) (kind : Kind)
    (error : String) : Collection :=
  let ending : Ending :=
    if s.isLatestServerRequest serverID generation then .thrown error else .applied false
  (s.setCall generation ⟨kind, ending⟩).finishServerRequest serverID generation

def addServer (s : Collection) (server : ServerRecord) : Collection :=
  { s with
    mutationRevision := s.mutationRevision + 1
    servers := (s.servers.filter fun item => item.id != server.id) ++ [server] }

/-- What a call is about whose request is under way. -/
def underWay? (s : Collection) (generation : Nat) : Option Kind :=
  match s.calls generation with
  | some ⟨kind, .pending⟩ => some kind
  | _ => none

def step (s : Collection) : Action → Collection
  | .loadServers => s.loadServers
  | .updateServer serverID action =>
    s.beginServerRequest serverID action (.update serverID action)
  | .removeServer serverID => s.beginServerRequest serverID .delete (.remove serverID)
  | .addServer server => s.addServer server
  | .listed generation result =>
    match s.underWay? generation with
    | some (.load revisionAtStart) =>
      (s.listed generation revisionAtStart result).setCall generation
        ⟨.load revisionAtStart, .returned⟩
    | _ => s
  | .updated generation updated =>
    match s.underWay? generation with
    | some (.update serverID action) =>
      s.mutated serverID generation (.update serverID action) fun current =>
        replaceServer current updated
    | _ => s
  | .removed generation =>
    match s.underWay? generation with
    | some (.remove serverID) =>
      s.mutated serverID generation (.remove serverID) fun current =>
        current.filter fun server => server.id != serverID
    | _ => s
  | .failed generation error =>
    match s.underWay? generation with
    | none => s
    | some (.load revisionAtStart) =>
      (s.listFailed generation error).setCall generation ⟨.load revisionAtStart, .returned⟩
    | some (.update serverID action) =>
      s.mutationFailed serverID generation (.update serverID action) error
    | some (.remove serverID) => s.mutationFailed serverID generation (.remove serverID) error

/-! ## The order of the calls -/

/-- The request of a mutation. -/
def request? (s : Collection) (generation : Nat) : Option (Int × ServerPendingAction) :=
  (s.calls generation).bind fun call => call.kind.request?

/-- The most recently begun request for a server. -/
structure Latest (s : Collection) (serverID : Int) (generation : Nat)
    (action : ServerPendingAction) : Prop where
  begun : s.request? generation = some (serverID, action)
  latest : ∀ other action', s.request? other = some (serverID, action') → other ≤ generation

/-- The action begins a request for the server. -/
def Action.Begins (serverID : Int) : Action → Prop
  | .updateServer id _ => id = serverID
  | .removeServer id => id = serverID
  | _ => False

/-- A call resolves with `applied: true`. -/
def Applies (s : Collection) (a : Action) : Prop :=
  ∃ generation kind, s.underWay? generation = some kind ∧
    (s.step a).calls generation = some ⟨kind, .applied true⟩

/-- The action begins a mutation, adds a server, begins another list request, or applies a mutation. -/
def Disturbs (s : Collection) : Action → Prop
  | .loadServers => True
  | .updateServer _ _ => True
  | .removeServer _ => True
  | .addServer _ => True
  | a => s.Applies a

end Collection

end TinyProbe.Web
