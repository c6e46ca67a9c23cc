import TinyProbe.Live.Status
import TinyProbe.Web.Snapshots

/-!
# The live page

`useServerSnapshotsState`, from its mount on, and the server behind it. The page learns of the
servers on two ways. A request of `/api/servers/status` is answered by `ListStatus`, which lists the
registered servers and then reads the snapshot of one after the other; its answer arrives some time
later, or it fails. The `EventSource` connects to `/api/live`: the handler subscribes to the hub, the
browser learns that it is open, and from then on is given the events published since `Subscribe`, in
order. A connection that breaks loses the events not delivered yet, and is made again.

React runs the functions passed to `setSnapshots` in order, some time after they were passed. They
read `serverEventRevisionsRef` when they run.

`seen`, `start` and `next` count events, of which the page knows nothing: how many the stream had when
`ListStatus` read a snapshot, how many were published when the connection subscribed, and how many of
those published the browser has been given or has missed. Without a subscription the last two are 0.
-/

namespace TinyProbe.Web

open Live Servers
open TinyProbe.Stream

variable {F : Type} [Float64 F]

/-- `LOAD_ERROR`. -/
def loadError : String := "暂时无法获取服务器状态，请稍后重试。"

/-- `CONNECTION_ERROR`. -/
def connectionError : String := "实时连接已断开，正在自动重连；当前数据可能不是最新。"

/-- `InitialLoadStatus`. -/
inductive InitialLoadStatus where
  | pending
  | success
  | error
deriving DecidableEq

/-- A snapshot that `ListStatus` has read. -/
structure Reading (F : Type) where
  snapshot : Snapshot F
  seen : Nat

/-- How far a request of `/api/servers/status` has come. -/
inductive Progress where
  | sent
  | reading
  | succeeded
  | failed
deriving DecidableEq

/-- A call of `refresh`: its `requestRevision`, and its request. -/
structure Fetch (F : Type) where
  requestRevision : Nat
  progress : Progress
  todo : List Server
  readings : List (Reading F)

/-- The state of the `EventSource`. -/
inductive Connection where
  | closed
  | connecting
  | subscribed
  | open
deriving DecidableEq

/-- The page, with the server behind it. -/
structure Page (F : Type) [Float64 F] where
  server : Coordinator F
  connection : Connection
  start : Nat
  next : Nat
  fetches : Map Nat (Fetch F)
  snapshots : List (Snapshot F)
  /-- The functions that React has still to run. -/
  updates : List (Update F)
  liveConnected : Bool
  connectionFailed : Bool
  initialLoadStatus : InitialLoadStatus
  error : Option String
  requestError : Option String
  openedRef : Bool
  connectionFailedRef : Bool
  eventRevisionRef : Nat
  serverEventRevisionsRef : Map Int Nat
  requestGenerationRef : Nat

namespace Page

/-- One step. Requests are told apart by their generations. -/
inductive Action (F : Type) where
  /-- A step of the coordinator that leaves the registered servers alone. -/
  | server (a : Live.Action F)
  | mount
  /-- A call of `refresh` from outside. -/
  | refresh
  /-- `ListStatus` lists the servers. -/
  | list (requestGeneration : Nat)
  /-- `ListStatus` reads the snapshot of the next one. -/
  | read (requestGeneration : Nat)
  /-- The answer arrives. -/
  | respond (requestGeneration : Nat)
  /-- The request fails, with the message of the server's answer if there is one. -/
  | fail (requestGeneration : Nat) (serverMessage : Option String)
  /-- The handler subscribes to the hub. -/
  | subscribe
  | onopen
  /-- The next event arrives. -/
  | deliver
  | onerror
  /-- React runs the next function. -/
  | render

/-- The page before its mount, and a server that has just started. -/
def initial (tables : Tables F) : Page F :=
  { server := .initial tables, connection := .closed, start := 0, next := 0, fetches := ∅
    snapshots := [], updates := [], liveConnected := false, connectionFailed := false
    initialLoadStatus := .pending, error := none, requestError := none, openedRef := false
    connectionFailedRef := false, eventRevisionRef := 0, serverEventRevisionsRef := ∅
    requestGenerationRef := 0 }

/-- The fetch of a generation. -/
def fetch? (s : Page F) (requestGeneration : Nat) : Option (Fetch F) :=
  AList.lookup requestGeneration s.fetches

def setFetch (s : Page F) (requestGeneration : Nat) (fetch : Fetch F) : Page F :=
  { s with fetches := s.fetches.insert requestGeneration fetch }

/-- `refresh`, as far as the request. -/
def refresh (s : Page F) : Page F :=
  let requestGeneration := s.requestGenerationRef + 1
  { s with requestGenerationRef := requestGeneration }.setFetch requestGeneration
    ⟨s.eventRevisionRef, .sent, [], []⟩

/-- `refresh`, when the answer has arrived. -/
def respond (s : Page F) (requestGeneration : Nat) (fetch : Fetch F) : Page F :=
  let s := s.setFetch requestGeneration { fetch with progress := .succeeded }
  if requestGeneration ≠ s.requestGenerationRef then s
  else
    { s with
      initialLoadStatus := .success
      updates := s.updates ++ [.reconcile (sortStatuses (fetch.readings.map Reading.snapshot))
        fetch.requestRevision]
      requestError := none
      error := if s.error = some connectionError then s.error else none }

/-- `refresh`, when the request has failed. -/
def fail (s : Page F) (requestGeneration : Nat) (fetch : Fetch F) (serverMessage : Option String) :
    Page F :=
  let s := s.setFetch requestGeneration { fetch with progress := .failed }
  if requestGeneration ≠ s.requestGenerationRef then s
  else
    let message := serverMessage.getD loadError
    { s with
      initialLoadStatus := if s.initialLoadStatus = .success then s.initialLoadStatus else .error
      requestError := some message
      error := some message }

def handleSnapshot (s : Page F) (snapshot : Snapshot F) : Page F :=
  let revision := s.eventRevisionRef + 1
  { s with
    eventRevisionRef := revision
    serverEventRevisionsRef := s.serverEventRevisionsRef.insert snapshot.serverID revision
    updates := s.updates ++ [.merge snapshot] }

def onopen (s : Page F) : Page F :=
  let s :=
    { s with
      liveConnected := true
      connectionFailed := false
      error := if s.error = some connectionError then none else s.error }
  let s := if s.openedRef || s.connectionFailedRef then s.refresh else s
  { s with openedRef := true, connectionFailedRef := false }

def onerror (s : Page F) : Page F :=
  { s with
    liveConnected := false
    connectionFailed := true
    connectionFailedRef := true
    error := some connectionError }

def step (localeCompare : String → String → Int) (s : Page F) : Action F → Page F
  | .server a => if a.keepsServers then { s with server := s.server.step a } else s
  | .mount =>
    if s.connection = .closed then { s.refresh with connection := .connecting } else s
  | .refresh => if s.connection = .closed then s else s.refresh
  | .list requestGeneration =>
    match s.fetch? requestGeneration with
    | some ⟨requestRevision, .sent, _, _⟩ =>
      s.setFetch requestGeneration
        ⟨requestRevision, .reading, Service.list s.server.registry, []⟩
    | _ => s
  | .read requestGeneration =>
    match s.fetch? requestGeneration with
    | some ⟨requestRevision, .reading, server :: todo, readings⟩ =>
      s.setFetch requestGeneration
        ⟨requestRevision, .reading, todo,
          readings ++ [⟨snapshotFor s.server.store server, s.server.stream.length⟩]⟩
    | _ => s
  | .respond requestGeneration =>
    match s.fetch? requestGeneration with
    | some ⟨requestRevision, .reading, [], readings⟩ =>
      s.respond requestGeneration ⟨requestRevision, .reading, [], readings⟩
    | _ => s
  | .fail requestGeneration serverMessage =>
    match s.fetch? requestGeneration with
    | some fetch =>
      if fetch.progress = .sent ∨ fetch.progress = .reading then
        s.fail requestGeneration fetch serverMessage
      else s
    | none => s
  | .subscribe =>
    if s.connection = .connecting then
      { s with
        connection := .subscribed
        start := s.server.published.length
        next := s.server.published.length }
    else s
  | .onopen =>
    if s.connection = .subscribed then { s.onopen with connection := .open } else s
  | .deliver =>
    if s.connection = .open then
      match s.server.published[s.next]? with
      | none => s
      | some event => { s.handleSnapshot event.snapshot with next := s.next + 1 }
    else s
  | .onerror =>
    if s.connection = .closed then s
    else { s.onerror with connection := .connecting, start := 0, next := 0 }
  | .render =>
    match s.updates with
    | [] => s
    | u :: updates =>
      { s with
        snapshots := u.apply localeCompare s.serverEventRevisionsRef s.snapshots
        updates }

/-- The most recently started fetch. -/
def latest? (s : Page F) : Option (Fetch F) := s.fetch? s.requestGenerationRef

/-- The stream is open, nothing is in flight to the page or within it, and the most recently started
fetch has succeeded. -/
structure Settled (s : Page F) : Prop where
  isOpen : s.connection = .open
  delivered : s.next = s.server.published.length
  published : s.server.pending = []
  rendered : s.updates = []
  succeeded : ∃ fetch, s.latest? = some fetch ∧ fetch.progress = .succeeded

/-- The page displays of a server what it now is. -/
def Displays (s : Page F) (server : Server) : Prop :=
  snapshotOf? server.id s.snapshots = some (snapshotFor s.server.store server)

/-- The last event about a server came after the most recently started fetch had read the server
and before the connection subscribed, and it was news. -/
def Missed (s : Page F) (server : Server) : Prop :=
  ∃ fetch reading event, s.latest? = some fetch ∧ reading ∈ fetch.readings ∧
    reading.snapshot.serverID = server.id ∧
    lastOf Event.serverID server.id ((s.server.published.take s.start).drop reading.seen) =
      some event ∧
    lastOf Event.serverID server.id (s.server.published.drop s.start) = none ∧
    event.snapshot ≠ reading.snapshot

end Page

end TinyProbe.Web
