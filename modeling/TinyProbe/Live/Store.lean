import TinyProbe.Lib.Map
import TinyProbe.Lib.Table
import TinyProbe.Live.Snapshot

/-!
# The live store

The map from server to its latest snapshot. Values are copied in and out of it (`cloneSnapshot`),
so a snapshot handed out is a value of its own and later steps do not change it.

`markOffline` returns the changed snapshots in map order, which Go leaves open: the coordinator's
model lets the order be any permutation of them.
-/

namespace TinyProbe.Live

variable {F : Type}

/-- `live.Store`. -/
structure Store (F : Type) where
  snapshots : Map Int (Snapshot F)

namespace Store

/-- `NewStore`. -/
def empty : Store F := ⟨∅⟩

/-- `Store.Get`. -/
def get (s : Store F) (serverID : Int) : Option (Snapshot F) := AList.lookup serverID s.snapshots

/-- The snapshot `UpsertFrom` builds of an accepted report. -/
def snapshotOf (server : Servers.Server) (report : Protocol.AgentReport F) (receivedAt : Time)
    (sourceIP : String) : Snapshot F :=
  { serverID := server.id, serverName := server.name, online := true
    lastReceivedAt := receivedAt, sourceIP, report }

/-- `Store.UpsertFrom`. -/
def upsertFrom (s : Store F) (server : Servers.Server) (report : Protocol.AgentReport F)
    (receivedAt : Time) (sourceIP : String) : Snapshot F × Store F :=
  let snapshot := snapshotOf server report receivedAt sourceIP
  (snapshot, ⟨s.snapshots.insert server.id snapshot⟩)

/-- The test `MarkOffline` makes of a snapshot. -/
def expired (cutoff : Time) (snapshot : Snapshot F) : Bool :=
  snapshot.online && snapshot.lastReceivedAt.before cutoff

/-- What `MarkOffline` stores in a snapshot's place. -/
def mark (cutoff : Time) (snapshot : Snapshot F) : Snapshot F :=
  if expired cutoff snapshot then { snapshot with online := false } else snapshot

/-- `Store.MarkOffline`: the changed snapshots and the store. -/
def markOffline (s : Store F) (cutoff : Time) : List (Snapshot F) × Store F :=
  (((s.snapshots.entries.map Sigma.snd).filter (expired cutoff)).map (mark cutoff),
    ⟨s.snapshots.mapVals (mark cutoff)⟩)

/-- The snapshots `MarkOffline` has changed, in an order of their servers. -/
def swept (s : Store F) (cutoff : Time) (order : List Int) : List (Snapshot F) :=
  order.filterMap fun id => (s.markOffline cutoff).1.find? (·.serverID == id)

/-- `Store.rename`. -/
def rename (s : Store F) (serverID : Int) (name : String) : Store F :=
  match s.get serverID with
  | none => s
  | some snapshot => ⟨s.snapshots.insert serverID { snapshot with serverName := name }⟩

/-- `Store.delete`. -/
def delete (s : Store F) (serverID : Int) : Store F := ⟨s.snapshots.erase serverID⟩

/-! ## What each operation leaves under a key -/

@[simp] theorem get_empty (id : Int) : (empty : Store F).get id = none := AList.lookup_empty id

@[simp] theorem snapshotOf_serverID (server : Servers.Server) (report : Protocol.AgentReport F)
    (t : Time) (ip : String) : (snapshotOf server report t ip).serverID = server.id := rfl

@[simp] theorem snapshotOf_online (server : Servers.Server) (report : Protocol.AgentReport F)
    (t : Time) (ip : String) : (snapshotOf server report t ip).online = true := rfl

@[simp] theorem upsertFrom_fst (s : Store F) (server : Servers.Server)
    (report : Protocol.AgentReport F) (t : Time) (ip : String) :
    (s.upsertFrom server report t ip).1 = snapshotOf server report t ip := rfl

/-- `UpsertFrom` stores an online snapshot of its server, and touches no other. -/
theorem get_upsertFrom (s : Store F) (server : Servers.Server) (report : Protocol.AgentReport F)
    (t : Time) (ip : String) (id : Int) :
    (s.upsertFrom server report t ip).2.get id =
      if id = server.id then some (snapshotOf server report t ip) else s.get id :=
  Map.lookup_insert _ _ _ _

/-- `MarkOffline` marks each snapshot by its own last report. -/
@[simp] theorem get_markOffline (s : Store F) (cutoff : Time) (id : Int) :
    (s.markOffline cutoff).2.get id = (s.get id).map (mark cutoff) :=
  Map.lookup_mapVals _ _ _

/-- `Delete` takes the snapshot of one server away. -/
theorem get_delete (s : Store F) (id id' : Int) :
    (s.delete id').get id = if id = id' then none else s.get id :=
  Map.lookup_erase _ _ _

@[simp] theorem mark_serverID (cutoff : Time) (snapshot : Snapshot F) :
    (mark cutoff snapshot).serverID = snapshot.serverID := by
  unfold mark; split <;> rfl

@[simp] theorem mark_serverName (cutoff : Time) (snapshot : Snapshot F) :
    (mark cutoff snapshot).serverName = snapshot.serverName := by
  unfold mark; split <;> rfl

/-- The keys are the servers of the snapshots. -/
def Keyed (s : Store F) : Prop := ∀ id snapshot, s.get id = some snapshot → snapshot.serverID = id

/-- The empty store has its snapshots under their servers. -/
theorem keyed_empty : (empty : Store F).Keyed := fun id snapshot h => by
  simp only [get_empty, reduceCtorEq] at h

/-- `UpsertFrom` stores a snapshot under its server. -/
theorem Keyed.upsertFrom {s : Store F} (hs : s.Keyed) (server : Servers.Server)
    (report : Protocol.AgentReport F) (t : Time) (ip : String) :
    (s.upsertFrom server report t ip).2.Keyed := fun id snapshot h => by
  rw [get_upsertFrom] at h
  split at h
  next heq => cases h; exact heq.symm
  next => exact hs id snapshot h

/-- `MarkOffline` moves no snapshot to another server. -/
theorem Keyed.markOffline {s : Store F} (hs : s.Keyed) (cutoff : Time) :
    (s.markOffline cutoff).2.Keyed := fun id snapshot h => by
  rw [get_markOffline] at h
  obtain ⟨old, hold, rfl⟩ := Option.map_eq_some_iff.mp h
  rw [mark_serverID]
  exact hs id old hold

/-- `Delete` moves no snapshot to another server. -/
theorem Keyed.delete {s : Store F} (hs : s.Keyed) (id' : Int) : (s.delete id').Keyed :=
  fun id snapshot h => by
    rw [get_delete] at h
    split at h
    next => cases h
    next => exact hs id snapshot h

/-- A changed snapshot is what the store now holds of its server. -/
theorem mem_markOffline {s : Store F} (hs : s.Keyed) {cutoff : Time} {snapshot : Snapshot F} :
    snapshot ∈ (s.markOffline cutoff).1 ↔
      ∃ old, s.get snapshot.serverID = some old ∧ expired cutoff old = true ∧
        snapshot = mark cutoff old := by
  simp only [Store.markOffline, List.mem_map, List.mem_filter]
  constructor
  · rintro ⟨old, ⟨⟨⟨id, old'⟩, hmem, rfl⟩, hexp⟩, rfl⟩
    have hget : s.get id = some old' := Map.mem_entries_iff.mp hmem
    refine ⟨old', ?_, hexp, rfl⟩
    rw [mark_serverID, hs id old' hget]
    exact hget
  · rintro ⟨old, hget, hexp, rfl⟩
    exact ⟨old, ⟨⟨⟨_, old⟩, Map.mem_entries_iff.mpr hget, rfl⟩, hexp⟩, rfl⟩

/-- A changed snapshot is offline. -/
theorem online_of_expired {cutoff : Time} {snapshot : Snapshot F}
    (h : expired cutoff snapshot = true) : (mark cutoff snapshot).online = false := by
  rw [mark, if_pos h]

/-- The store holds what it has handed out. -/
theorem get_of_changed {s : Store F} (hs : s.Keyed) {cutoff : Time} {snapshot : Snapshot F}
    (h : snapshot ∈ (s.markOffline cutoff).1) :
    (s.markOffline cutoff).2.get snapshot.serverID = some snapshot := by
  obtain ⟨old, hold, _, heq⟩ := (mem_markOffline hs).mp h
  rw [get_markOffline, hold, Option.map_some, ← heq]

/-- What `MarkOffline` does not return it has not changed. -/
theorem get_of_not_changed {s : Store F} (hs : s.Keyed) {cutoff : Time} {id : Int}
    (h : id ∉ (s.markOffline cutoff).1.map Snapshot.serverID) :
    (s.markOffline cutoff).2.get id = s.get id := by
  rw [get_markOffline]
  cases hold : s.get id with
  | none => rfl
  | some old =>
    have hexp : ¬ expired cutoff old = true := fun hexp => by
      have hserver : (mark cutoff old).serverID = id := by
        rw [mark_serverID]
        exact hs id old hold
      have hmem := (mem_markOffline hs).mpr ⟨old, by rw [hserver]; exact hold, hexp, rfl⟩
      exact h (List.mem_map.mpr ⟨_, hmem, hserver⟩)
    rw [Option.map_some, mark, if_neg hexp]

/-- No server is changed twice by one sweep. -/
theorem nodup_markOffline {s : Store F} (hs : s.Keyed) (cutoff : Time) :
    ((s.markOffline cutoff).1.map Snapshot.serverID).Nodup := by
  have hids : ((s.markOffline cutoff).1.map Snapshot.serverID).Sublist s.snapshots.keys := by
    have hkeys : s.snapshots.keys = (s.snapshots.entries.map Sigma.snd).map Snapshot.serverID := by
      rw [AList.keys, List.keys, List.map_map]
      exact List.map_congr_left fun e he => (hs e.1 e.2 (Map.mem_entries_iff.mp he)).symm
    rw [hkeys]
    simp only [Store.markOffline, List.map_map]
    have hcomp : Snapshot.serverID ∘ mark cutoff = (Snapshot.serverID : Snapshot F → Int) :=
      funext fun snapshot => mark_serverID cutoff snapshot
    rw [hcomp]
    have := (List.filter_sublist (p := expired cutoff)
      (l := s.snapshots.entries.map Sigma.snd)).map Snapshot.serverID
    rwa [List.map_map] at this
  exact hids.nodup s.snapshots.keys_nodup

/-- `Sweep` publishes what `MarkOffline` has returned, in whatever order the map is read. -/
theorem mem_of_mem_swept {s : Store F} {cutoff : Time} {order : List Int} {snapshot : Snapshot F}
    (h : snapshot ∈ s.swept cutoff order) : snapshot ∈ (s.markOffline cutoff).1 := by
  obtain ⟨id, _, hfound⟩ := List.mem_filterMap.mp h
  exact List.mem_of_find?_eq_some hfound

/-- The changed snapshots come in the order of their servers. -/
theorem map_serverID_swept {s : Store F} {cutoff : Time} {order : List Int}
    (hsub : order ⊆ (s.markOffline cutoff).1.map Snapshot.serverID) :
    (s.swept cutoff order).map Snapshot.serverID = order := by
  unfold swept
  induction order with
  | nil => rfl
  | cons id order ih =>
    obtain ⟨snapshot, hmem, hid⟩ := List.mem_map.mp (hsub List.mem_cons_self)
    obtain ⟨found, hfound⟩ := Option.isSome_iff_exists.mp (List.find?_isSome
      (p := fun x : Snapshot F => x.serverID == id) |>.mpr ⟨snapshot, hmem, beq_iff_eq.mpr hid⟩)
    rw [List.filterMap_cons, hfound]
    simp only [List.map_cons]
    rw [ih fun _ h => hsub (List.mem_cons_of_mem _ h), Table.key_of_find? Snapshot.serverID hfound]

/-- An order of the changed servers is an order of the changed snapshots. -/
theorem swept_perm {s : Store F} (hs : s.Keyed) {cutoff : Time} {order : List Int}
    (h : order.Perm ((s.markOffline cutoff).1.map Snapshot.serverID)) :
    (s.swept cutoff order).Perm (s.markOffline cutoff).1 := by
  have hids := nodup_markOffline hs cutoff
  unfold swept
  generalize (s.markOffline cutoff).1 = changed at h hids
  apply (h.filterMap _).trans
  rw [List.filterMap_map]
  have hfind : changed.filterMap ((fun id => changed.find? (·.serverID == id)) ∘ Snapshot.serverID) =
      changed.filterMap some :=
    List.filterMap_congr fun snapshot hmem => Table.find?_of_mem Snapshot.serverID hids hmem
  rw [hfind, List.filterMap_some]

/-- A new name shows in the snapshot of its server. -/
theorem get_rename (s : Store F) (id id' : Int) (name : String) :
    (s.rename id' name).get id =
      if id = id' then (s.get id).map fun snapshot => { snapshot with serverName := name }
      else s.get id := by
  unfold rename
  split
  next h =>
    split
    next heq => rw [heq, h, Option.map_none]
    next => rfl
  next snapshot h =>
    apply (Map.lookup_insert _ _ _ _).trans
    split
    next heq => rw [heq, h, Option.map_some]
    next => rfl

/-- A new name moves no snapshot to another server. -/
theorem Keyed.rename {s : Store F} (hs : s.Keyed) (id' : Int) (name : String) :
    (s.rename id' name).Keyed := by
  intro id snapshot h
  rw [get_rename] at h
  split at h
  next =>
    obtain ⟨old, hold, rfl⟩ := Option.map_eq_some_iff.mp h
    exact hs id old hold
  next => exact hs id snapshot h

end Store

end TinyProbe.Live
