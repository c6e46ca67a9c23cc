import TinyProbe.Servers.Registry
import TinyProbe.Web.Installation

/-!
# The collection and its backend

`useServerCollection` over the registry it is the only client of. A request takes effect at the
registry at once, at some moment between its call and its completion (`serve`), or fails without
an effect, and its answer arrives at any time after that (`deliver`). Servers are created beside
the hook: `addServer` is called with the record of a creation at any time after it.

Four fields are records of the run. `installed` says that the answer of a list request has been
taken over. `last` has of every server the request that took effect on it last, unless a list that
was read after it has been taken over when no update or removal was outstanding. `since` has of
every list request the servers that were changed or created since its list was read. `outdated`
are the servers that the collection was last told of by an `addServer` with a record that was no
longer the registry's.
-/

namespace TinyProbe.Web

open Servers

/-- What an update asks for. -/
inductive UpdateRequest where
  | set (name : Option String) (enabled : Option Bool)
  | rotate
deriving DecidableEq

/-- The answer of a request. -/
inductive BackendReply where
  | listed (result : List ServerRecord)
  | updated (record : ServerRecord)
  | removed
  | failed (error : String)
deriving DecidableEq

/-- The fields of a record that the registry keeps. -/
def ServerRecord.server (record : ServerRecord) : Server :=
  { id := record.id, name := record.name, enabled := record.enabled }

/-- The record of a server; `stamp` has the fields that are not modelled. -/
def recordOf (stamp : ServerRecord) (server : Server) : ServerRecord :=
  { stamp with id := server.id, name := server.name, enabled := server.enabled }

namespace Collection

/-- The list request whose answer would be taken over. -/
def Current (s : Collection) (generation : Nat) : Prop :=
  s.underWay? generation = some (.load s.mutationRevision) ∧ s.latestListGeneration = generation

instance (s : Collection) : DecidablePred s.Current := fun generation =>
  inferInstanceAs (Decidable (s.underWay? generation = some (.load s.mutationRevision) ∧ _))

/-- No update or removal is outstanding. -/
def Quiet (s : Collection) : Prop :=
  ∀ generation ≤ s.nextGeneration, (s.underWay? generation).bind Kind.request? = none

instance (s : Collection) : Decidable s.Quiet :=
  inferInstanceAs (Decidable (∀ generation ≤ s.nextGeneration, _))

end Collection

structure Client where
  hook : Collection
  registry : Registry
  /-- What the updates ask for. -/
  changes : Nat → Option UpdateRequest
  replies : Nat → Option BackendReply
  /-- The servers created that `addServer` was not yet called with. -/
  creations : List ServerRecord
  installed : Bool
  last : Int → Option Nat
  since : Nat → List Int
  outdated : List Int

namespace Client

inductive Action where
  | loadServers
  | updateServer (serverID : Int) (action : ServerPendingAction) (change : UpdateRequest)
  | removeServer (serverID : Int)
  /-- A server is created. -/
  | create (name : String) (stamp : ServerRecord)
  /-- `addServer` is called with the record of a server that was created. -/
  | addServer (serverID : Int)
  /-- A request takes effect, or fails. -/
  | serve (generation : Nat) (fails : Bool) (error : String) (stamp : Int → ServerRecord)
  /-- A request completes. -/
  | deliver (generation : Nat)

def start (registry : Registry) : Client :=
  { hook := .new, registry, changes := fun _ => none, replies := fun _ => none, creations := []
    installed := false, last := fun _ => none, since := fun _ => [], outdated := [] }

/-- The server as the registry has it. -/
def current? (s : Client) (serverID : Int) : Option Server :=
  (s.registry.row? serverID).map Row.toServer

/-- What the registry does for an update. -/
def perform (registry : Registry) (serverID : Int) :
    UpdateRequest → Except ServiceError Server × Registry
  | .set name enabled =>
    match Service.checkUpdate name enabled with
    | .error err => (.error err, registry)
    | .ok name => Service.update registry serverID name enabled .ok
  | .rotate =>
    let (result, registry) := Service.rotateTokenWithServer registry serverID .ok
    (result.map Prod.fst, registry)

def answer (s : Client) (generation : Nat) (reply : BackendReply) : Client :=
  { s with replies := Function.update s.replies generation (some reply) }

/-- An update or a removal takes effect. -/
def affect (s : Client) (generation : Nat) (serverID : Int) (registry : Registry) (reply : BackendReply) :
    Client :=
  { s.answer generation reply with
    registry
    last := Function.update s.last serverID (some generation)
    since := fun other => serverID :: s.since other }

/-- A list is read. -/
def readList (s : Client) (generation : Nat) (stamp : Int → ServerRecord) : Client :=
  { s.answer generation (.listed ((Service.list s.registry).map fun server =>
      recordOf (stamp server.id) server)) with
    since := Function.update s.since generation [] }

def serve (s : Client) (generation : Nat) (kind : Collection.Kind) (error : String)
    (stamp : Int → ServerRecord) : Client :=
  match kind with
  | .load _ => s.readList generation stamp
  | .update serverID _ =>
    match s.changes generation with
    | none => s
    | some change =>
      match perform s.registry serverID change with
      | (.ok server, registry) =>
        s.affect generation serverID registry (.updated (recordOf (stamp serverID) server))
      | (.error _, registry) => { s.answer generation (.failed error) with registry }
  | .remove serverID =>
    match Service.delete s.registry serverID .ok with
    | (.ok _, registry) => s.affect generation serverID registry .removed
    | (.error _, registry) => { s.answer generation (.failed error) with registry }

/-- A list is answered; if the collection takes it over, that is on record. -/
def deliverList (s : Client) (generation : Nat) (result : List ServerRecord) : Client :=
  let s' := { s with hook := s.hook.step (.listed generation result) }
  if s.hook.Current generation then
    { s' with
      installed := true
      outdated := []
      last :=
        if s.hook.Quiet then fun id => if id ∈ s.since generation then s.last id else none
        else s.last }
  else s'

/-- An update or a removal is answered with success. -/
def deliverMutation (s : Client) (generation : Nat) (serverID : Int) (a : Collection.Action) :
    Client :=
  { s with
    hook := s.hook.step a
    outdated :=
      if s.hook.isLatestServerRequest serverID generation then s.outdated.filter (· != serverID)
      else s.outdated }

def deliver (s : Client) (generation : Nat) (kind : Collection.Kind) : BackendReply → Client
  | .listed result => s.deliverList generation result
  | .updated record => s.deliverMutation generation record.id (.updated generation record)
  | .removed =>
    match kind with
    | .remove serverID => s.deliverMutation generation serverID (.removed generation)
    | _ => s
  | .failed error => { s with hook := s.hook.step (.failed generation error) }

def create (s : Client) (name : String) (stamp : ServerRecord) : Client :=
  match Service.create s.registry name .ok with
  | (.ok (server, _), registry) =>
    { s with
      registry
      creations := s.creations ++ [recordOf stamp server]
      since := fun generation => server.id :: s.since generation }
  | (.error _, registry) => { s with registry }

def add (s : Client) (record : ServerRecord) : Client :=
  { s with
    hook := s.hook.step (.addServer record)
    creations := s.creations.filter fun other => other.id != record.id
    outdated :=
      if s.current? record.id = some record.server then s.outdated.filter (· != record.id)
      else record.id :: s.outdated }

def step (s : Client) : Action → Client
  | .loadServers => { s with hook := s.hook.step .loadServers }
  | .updateServer serverID action change =>
    { s with
      hook := s.hook.step (.updateServer serverID action)
      changes := Function.update s.changes (s.hook.nextGeneration + 1) (some change) }
  | .removeServer serverID => { s with hook := s.hook.step (.removeServer serverID) }
  | .create name stamp => s.create name stamp
  | .addServer serverID =>
    match s.creations.find? fun record => record.id == serverID with
    | none => s
    | some record => s.add record
  | .serve generation fails error stamp =>
    match s.hook.underWay? generation, s.replies generation with
    | some kind, none =>
      if fails then s.answer generation (.failed error) else s.serve generation kind error stamp
    | _, _ => s
  | .deliver generation =>
    match s.hook.underWay? generation, s.replies generation with
    | some kind, some reply => s.deliver generation kind reply
    | _, _ => s

/-- No request is outstanding, and every server that was created has been added. -/
structure AtRest (s : Client) : Prop where
  requests : ∀ generation, s.hook.underWay? generation = none
  creations : s.creations = []

/-- The call has resolved with `applied: true`. -/
def Applied (s : Client) (generation : Nat) : Prop :=
  ∃ kind, s.hook.calls generation = some ⟨kind, .applied true⟩

end Client

end TinyProbe.Web
