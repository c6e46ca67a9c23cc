import TinyProbe.Live.Agreement

/-!
# What the server tells of its servers

`ListStatus` answers with a snapshot of every registered server, read out of the store server by
server. While no server is created, updated or deleted, the store holds of each what the stream of
events says last, so an answer is a reading of the stream (`Serves.snapshotFor_eq`): the events
published, and those that the call holding the coordinator's lock has still to publish.
-/

namespace TinyProbe.Live

open Servers Protocol Run
open TinyProbe.Stream

variable {F : Type}

/-- The order of `ListStatus`: the servers that are offline first. -/
def listedBefore (a b : Snapshot F) : Bool :=
  if a.online != b.online then !a.online else decide (a.serverName < b.serverName)

/-- The sort of `ListStatus`. -/
def sortStatuses (statuses : List (Snapshot F)) : List (Snapshot F) :=
  statuses.insertionSort fun a b => !listedBefore b a

/-- Every step but those of the calls that create, update or delete a server. -/
def Action.keepsServers : Action F → Bool
  | .update _ _ _ | .delete _ | .create _ _ => false
  | _ => true

/-- The phases of `Accept` and `Sweep`. -/
def Phase.reports : Phase F → Bool
  | .authenticating _ | .versioning _ _ | .storing _ _ | .publishing _ _ _ | .recording _ _
  | .sweeping _ => true
  | _ => false

/-- Every server with events has a snapshot. -/
def Heard (store : Store F) (stream : List (Event F)) : Prop :=
  ∀ e ∈ stream, (store.get e.serverID).isSome

section Moves

variable {told : Server → Prop} {store store' : Store F} {stream stream' : List (Event F)}

/-- A move only appends to the stream. -/
theorem Move.extends (h : Move told store stream store' stream') : stream <+: stream' := by
  cases h with
  | stay | rename | delete => exact List.prefix_rfl
  | report | sweep => exact List.prefix_append _ _

/-- A move that drops no snapshot keeps every server with events known. -/
theorem Heard.move (h : Heard store stream) (hmove : Move told store stream store' stream')
    (hkeyed : store.Keyed) (hkept : ∀ id, (store.get id).isSome → (store'.get id).isSome) :
    Heard store' stream' := by
  have hold : ∀ e ∈ stream, (store'.get e.serverID).isSome := fun e he => hkept _ (h e he)
  cases hmove with
  | stay | rename | delete => exact hold
  | report server report t ip =>
    refine List.forall_mem_append.mpr ⟨hold, List.forall_mem_singleton.mpr ?_⟩
    show ((store.upsertFrom server report t ip).2.get server.id).isSome
    rw [Store.get_upsertFrom, if_pos rfl]
    rfl
  | sweep cutoff changed hperm =>
    refine List.forall_mem_append.mpr ⟨hold, ?_⟩
    intro e he
    obtain ⟨new, hnew, rfl⟩ := List.mem_map.mp he
    show ((store.markOffline cutoff).2.get new.serverID).isSome
    rw [Store.get_of_changed hkeyed (hperm.mem_iff.mp hnew)]
    rfl

end Moves

variable [Float64 F]

/-- The snapshot of a server that has not been heard of. -/
def Snapshot.absent (server : Server) : Snapshot F :=
  { serverID := server.id, serverName := server.name, online := false, lastReceivedAt := .zero
    sourceIP := "", report := .ofCPU (Float64.ofNat 0) }

/-- `Handler.snapshotFor`. -/
def snapshotFor (store : Store F) (server : Server) : Snapshot F :=
  match store.get server.id with
  | none => .absent server
  | some snapshot => { snapshot with serverID := server.id, serverName := server.name }

/-- What a stream of events tells of a server. -/
def lastTold (server : Server) (stream : List (Event F)) : Snapshot F :=
  (lastOf Event.serverID server.id stream).elim (.absent server) Event.snapshot

section Told

variable {server : Server} {stream : List (Event F)}

theorem lastTold_none (h : lastOf Event.serverID server.id stream = none) :
    lastTold server stream = .absent server := by
  rw [lastTold, h, Option.elim_none]

theorem lastTold_some {e : Event F} (h : lastOf Event.serverID server.id stream = some e) :
    lastTold server stream = e.snapshot := by
  rw [lastTold, h, Option.elim_some]

theorem lastTold_serverID : (lastTold server stream).serverID = server.id := by
  cases h : lastOf Event.serverID server.id stream with
  | none => rw [lastTold_none h]; rfl
  | some e => rw [lastTold_some h]; exact (lastOf_mem h).2

end Told

namespace Coordinator

/-- The coordinator serves these servers: they are registered, the calls under way report or sweep,
and no event or snapshot has another name for one of them. -/
structure Serves (servers : List Server) (s : Coordinator F) : Prop where
  sound : s.Sound
  registered : s.registry.servers = servers
  reports : ∀ h, s.holder = some h → h.phase.reports
  known : ∀ server ∈ servers, s.Known server.id (· = server.name) 0
  heard : Heard s.store s.stream

section Steps

variable {s s' : Coordinator F} {a : Action F} {h : Holder F} {outcome : Outcome}
  {servers : List Server} {server : Server}

/-- An event that is published stays published. -/
theorem published_step (hstep : Step s a s') : s.published <+: s'.published := by
  cases hstep with
  | turn _ hturn =>
    cases hturn with
    | published | offline => exact List.prefix_append _ _
    | _ => exact List.prefix_rfl
  | _ => exact List.prefix_rfl

/-- The call that holds the lock goes on reporting or sweeping. -/
theorem turn_reports (hphase : h.phase.reports) (hturn : Turn s h outcome s') :
    ∀ h', s'.holder = some h' → h'.phase.reports := by
  intro h' hheld
  cases hturn with
  | refused | unversioned | recorded | swept | notUpdated | renamed | notDeleted | removed =>
    cases hheld
  | authenticated | versioned | stored | published | offline =>
    cases hheld
    rfl
  | updated h | deleted h | dropped h =>
    rw [h] at hphase
    cases hphase

/-- No snapshot is dropped. -/
theorem turn_kept (hphase : h.phase.reports) (hturn : Turn s h outcome s') (id : Int)
    (hget : (s.store.get id).isSome) : (s'.store.get id).isSome := by
  cases hturn with
  | @stored call server _ =>
    show ((s.store.upsertFrom server call.report call.receivedAt call.sourceIP).2.get id).isSome
    rw [Store.get_upsertFrom]
    split
    next => rfl
    next => exact hget
  | renamed h | dropped h =>
    rw [h] at hphase
    cases hphase
  | _ => exact hget

theorem turn_registered (hphase : h.phase.reports) (hturn : Turn s h outcome s') :
    s'.registry.servers = s.registry.servers := by
  cases hturn with
  | unversioned | versioned => exact Service.servers_updateAgentVersion _ _
  | notUpdated h | updated h | notDeleted h | deleted h =>
    rw [h] at hphase
    cases hphase
  | _ => rfl

/-- Only the steps of the lock's holder change what it is at. -/
theorem lock_reports {op : Op F} {phase : Phase F} (hs : ∀ h, s.holder = some h → h.phase.reports)
    (hphase : phase.reports) : ∀ h, (s.lock op phase).holder = some h → h.phase.reports := by
  unfold lock
  split
  next => exact hs
  next =>
    intro h hheld
    cases hheld
    exact hphase

theorem reports_step (hs : ∀ h, s.holder = some h → h.phase.reports) (hkeeps : a.keepsServers) :
    ∀ h, (s.step a).holder = some h → h.phase.reports := by
  cases a with
  | accept call => exact lock_reports hs rfl
  | sweep cutoff order =>
    simp only [Coordinator.step]
    split
    next =>
      split
      next => exact hs
      next => exact lock_reports hs rfl
    next => exact hs
  | update | delete | create => cases hkeeps
  | proceed outcome =>
    simp only [Coordinator.step]
    split
    next => exact hs
    next h hheld => exact turn_reports (hs h hheld) (proceed_turn s h outcome)
  | rotate id outcome =>
    simp only [Coordinator.step, Coordinator.rotate]
    split
    next => exact hs
    next => exact hs
  | rotated token =>
    simp only [Coordinator.step]
    split
    next => exact hs
    next => exact hs
  | flush a => cases a <;> exact hs

/-- The step is no update, so names stay. -/
theorem spares_step {id : Int} {p : Server → Prop}
    (hs : ∀ h, s.holder = some h → h.phase.reports) : Spares id p s a := by
  intro outcome h name enabled _ hheld hphase
  have hreports := hs h hheld
  rw [hphase] at hreports
  cases hreports

theorem kept_step (hs : ∀ h, s.holder = some h → h.phase.reports) (hstep : Step s a s') (id : Int)
    (hget : (s.store.get id).isSome) : (s'.store.get id).isSome := by
  cases hstep with
  | turn hheld hturn => exact turn_kept (hs _ hheld) hturn id hget
  | marked =>
    rw [Store.get_markOffline, Option.isSome_map]
    exact hget
  | _ => exact hget

theorem registered_step (hs : ∀ h, s.holder = some h → h.phase.reports) (hstep : Step s a s')
    (hkeeps : a.keepsServers) : s'.registry.servers = s.registry.servers := by
  cases hstep with
  | turn hheld hturn => exact turn_registered (hs _ hheld) hturn
  | created => cases hkeeps
  | notRotated | rotated => exact Service.servers_rotate _
  | _ => rfl

/-- **A coordinator goes on serving its servers** by every step that keeps them. -/
theorem Serves.step (hs : Serves servers s) (hkeeps : a.keepsServers) :
    Serves servers (s.step a) where
  sound := hs.sound.step a
  registered := (registered_step hs.reports (step_step s a) hkeeps).trans hs.registered
  reports := reports_step hs.reports hkeeps
  known server hserver := (hs.known server hserver).step (spares_step hs.reports)
  heard := hs.heard.move (step_moves hs.sound.agrees.keyed (step_step s a)) hs.sound.agrees.keyed
    (kept_step hs.reports (step_step s a))

theorem serves_initial (tables : Tables F) :
    Serves tables.registry.servers (Coordinator.initial tables) where
  sound := sound_initial tables
  registered := rfl
  reports h hheld := by cases hheld
  known server hserver := by
    obtain ⟨row, hrow, rfl⟩ := Registry.row?_of_mem_servers hserver
    refine ⟨sound_initial tables, ⟨Registry.knows_of_row hrow rfl, ?_⟩, ?_⟩
    · intro h other hheld
      cases hheld
    · refine ⟨Nat.zero_le _, ?_, ?_⟩
      · intro snapshot hget
        cases hget.symm.trans (Store.get_empty row.id)
      · intro e he
        cases he
  heard e he := by cases he

/-- **What `ListStatus` reads of a server is what the stream says last.** -/
theorem Serves.snapshotFor_eq (hs : Serves servers s) (hserver : server ∈ servers) :
    snapshotFor s.store server = lastTold server s.stream := by
  unfold snapshotFor
  split
  next hnone =>
    refine (lastTold_none (lastOf_eq_none_iff.mpr ?_)).symm
    intro e he hid
    have hsome := hs.heard e he
    rw [hid, hnone] at hsome
    cases hsome
  next snapshot hget =>
    obtain ⟨e, he, _, hcarried⟩ := hs.sound.agrees.last _ snapshot hget
    have hnames := (hs.known server hserver).names
    have hname : snapshot.serverName = server.name := hnames.stored snapshot hget
    have hename : e.snapshot.serverName = server.name :=
      hnames.later e (lastOf_mem he).1 (lastOf_mem he).2
    rw [lastTold_some he]
    calc { snapshot with serverID := server.id, serverName := server.name }
        = snapshot := by rw [← hs.sound.agrees.keyed _ snapshot hget, ← hname]
      _ = { e.snapshot with serverName := snapshot.serverName } := hcarried.symm
      _ = e.snapshot := by rw [hname, ← hename]

/-- The stream only grows. -/
theorem Serves.stream_step (hs : Serves servers s) (a : Action F) :
    s.stream <+: (s.step a).stream :=
  (step_moves hs.sound.agrees.keyed (step_step s a)).extends

end Steps

end Coordinator

end TinyProbe.Live
