import TinyProbe.Web.LivePage
import Mathlib.Logic.Function.Basic

/-!
# The hook of the live list

`useServerSnapshotsState` on its own: whatever the server answers and the browser reports, and in any
order. The effect and its cleanup run whenever React says so, `refresh` is called at any time, and the
answer of a request arrives, or its failure, at any time after it. As on the page (`Web.LivePage`),
React runs the functions passed to `setSnapshots` in order, some time after they were passed.

`received` are the snapshots of the events so far, `heard` is how many of them there were when a
request was sent, and `applied` is the last answer that the hook has passed on: records of the run,
which the hook does not have.
-/

namespace TinyProbe.Web

open Live
open TinyProbe.Stream

variable {F : Type}

/-- `Partial<LiveSnapshotEvent>`. -/
structure EventData (F : Type) where
  type : Option String
  snapshot : Option (Snapshot F)

/-- `parseSnapshotEvent`, when `JSON.parse` has returned or thrown. A snapshot whose `serverId` is no
number is none. -/
def parseSnapshotEvent (data : Option (EventData F)) : Option (Snapshot F) :=
  match data with
  | none => none
  | some value =>
    if value.type = some "snapshot.updated" ∨ value.type = some "snapshot.offline" then value.snapshot
    else none

/-- What a request is answered: one snapshot of each server. -/
structure Answer (F : Type) where
  snapshots : List (Snapshot F)
  distinct : Distinct snapshots

/-- A call of `refresh`, with the signal of its controller. -/
structure Request where
  requestRevision : Nat
  heard : Nat
  aborted : Bool
  settled : Bool

/-- An answer that was passed on, with the `heard` of its request. -/
structure Applied (F : Type) where
  fetched : List (Snapshot F)
  heard : Nat

/-- What `useServerSnapshotsState` keeps. Requests and their controllers are told apart by their
generations. -/
structure Hook (F : Type) where
  snapshots : List (Snapshot F)
  /-- The functions that React has still to run. -/
  updates : List (Update F)
  liveConnected : Bool
  connectionFailed : Bool
  initialLoadStatus : InitialLoadStatus
  error : Option String
  requestError : Option String
  mountedRef : Bool
  openedRef : Bool
  connectionFailedRef : Bool
  controllersRef : List Nat
  eventRevisionRef : Nat
  serverEventRevisionsRef : Map Int Nat
  requestGenerationRef : Nat
  requests : Nat → Option Request
  received : List (Snapshot F)
  applied : Applied F

namespace Hook

inductive Action (F : Type) where
  /-- The effect. -/
  | mount
  /-- Its cleanup. -/
  | unmount
  /-- A call of `refresh` from outside. -/
  | refresh
  /-- The answer to a request arrives. -/
  | respond (requestGeneration : Nat) (next : Answer F)
  /-- A request fails, with the message of the server's answer if there is one. -/
  | fail (requestGeneration : Nat) (serverMessage : Option String)
  /-- An event arrives, with what `JSON.parse` makes of it. -/
  | event (data : Option (EventData F))
  | onopen
  | onerror
  /-- React runs the next function. -/
  | render

def new : Hook F :=
  { snapshots := [], updates := [], liveConnected := false, connectionFailed := false
    initialLoadStatus := .pending, error := none, requestError := none, mountedRef := true
    openedRef := false, connectionFailedRef := false, controllersRef := [], eventRevisionRef := 0
    serverEventRevisionsRef := ∅, requestGenerationRef := 0, requests := fun _ => none
    received := [], applied := { fetched := [], heard := 0 } }

/-- `refresh`, as far as the request. -/
def refresh (s : Hook F) : Hook F :=
  let requestGeneration := s.requestGenerationRef + 1
  { s with
    requestGenerationRef := requestGeneration
    controllersRef := s.controllersRef ++ [requestGeneration]
    requests := Function.update s.requests requestGeneration (some
      { requestRevision := s.eventRevisionRef, heard := s.received.length, aborted := false
        settled := false }) }

/-- `refresh`, when the answer has arrived. -/
def respond (s : Hook F) (requestGeneration : Nat) (request : Request) (next : Answer F) : Hook F :=
  if !s.mountedRef ∨ requestGeneration ≠ s.requestGenerationRef then s
  else
    { s with
      initialLoadStatus := .success
      updates := s.updates ++ [.reconcile next.snapshots request.requestRevision]
      requestError := none
      error := if s.error = some connectionError then s.error else none
      applied := { fetched := next.snapshots, heard := request.heard } }

/-- `refresh`, when the request has failed. -/
def fail (s : Hook F) (requestGeneration : Nat) (request : Request) (serverMessage : Option String) :
    Hook F :=
  if !s.mountedRef ∨ request.aborted ∨ requestGeneration ≠ s.requestGenerationRef then s
  else
    let message := serverMessage.getD loadError
    { s with
      initialLoadStatus := if s.initialLoadStatus = .success then s.initialLoadStatus else .error
      requestError := some message
      error := some message }

/-- The end of `refresh`. -/
def settle (s : Hook F) (requestGeneration : Nat) (request : Request) : Hook F :=
  { s with
    controllersRef := s.controllersRef.erase requestGeneration
    requests := Function.update s.requests requestGeneration (some { request with settled := true }) }

def handleSnapshot (s : Hook F) (data : Option (EventData F)) : Hook F :=
  match parseSnapshotEvent data with
  | none => s
  | some snapshot =>
    if s.mountedRef then
      let revision := s.eventRevisionRef + 1
      { s with
        eventRevisionRef := revision
        serverEventRevisionsRef := s.serverEventRevisionsRef.insert snapshot.serverID revision
        updates := s.updates ++ [.merge snapshot]
        received := s.received ++ [snapshot] }
    else s

def onopen (s : Hook F) : Hook F :=
  if !s.mountedRef then s
  else
    let s :=
      { s with
        liveConnected := true
        connectionFailed := false
        error := if s.error = some connectionError then none else s.error }
    let s := if s.openedRef || s.connectionFailedRef then s.refresh else s
    { s with openedRef := true, connectionFailedRef := false }

def onerror (s : Hook F) : Hook F :=
  if !s.mountedRef then s
  else
    { s with
      liveConnected := false
      connectionFailed := true
      connectionFailedRef := true
      error := some connectionError }

/-- The cleanup of the effect. -/
def unmount (s : Hook F) : Hook F :=
  { s with
    mountedRef := false
    controllersRef := []
    requests := fun requestGeneration => (s.requests requestGeneration).map fun request =>
      if requestGeneration ∈ s.controllersRef then { request with aborted := true } else request }

/-- A request that is under way. -/
def underWay? (s : Hook F) (requestGeneration : Nat) : Option Request :=
  (s.requests requestGeneration).filter fun request => !request.settled

def step (localeCompare : String → String → Int) (s : Hook F) : Action F → Hook F
  | .mount => { s with mountedRef := true }.refresh
  | .unmount => s.unmount
  | .refresh => s.refresh
  | .respond requestGeneration next =>
    match s.underWay? requestGeneration with
    | none => s
    | some request => (s.respond requestGeneration request next).settle requestGeneration request
  | .fail requestGeneration serverMessage =>
    match s.underWay? requestGeneration with
    | none => s
    | some request =>
      (s.fail requestGeneration request serverMessage).settle requestGeneration request
  | .event data => s.handleSnapshot data
  | .onopen => s.onopen
  | .onerror => s.onerror
  | .render =>
    match s.updates with
    | [] => s
    | u :: updates =>
      { s with
        snapshots := u.apply localeCompare s.serverEventRevisionsRef s.snapshots
        updates }

/-- What the list shows of a server once React has run everything. -/
def shown (s : Hook F) (serverID : Int) : Option (Snapshot F) :=
  s.updates.foldl
    (fun shown u => u.onServer serverID (revisionOf s.serverEventRevisionsRef serverID) shown)
    (snapshotOf? serverID s.snapshots)

/-- A request that has been superseded, or that was unmounted since it was sent, or sent by a hook that
is not mounted. -/
def Stale (s : Hook F) (requestGeneration : Nat) : Prop :=
  (∃ later request, requestGeneration < later ∧ s.requests later = some request) ∨
    (∃ request, s.requests requestGeneration = some request ∧ request.aborted = true) ∨
      s.mountedRef = false

end Hook

end TinyProbe.Web
