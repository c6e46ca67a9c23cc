import TinyProbe.Lib.Map
import TinyProbe.Lib.Stream
import TinyProbe.Lib.Table
import TinyProbe.Live.Snapshot
import Mathlib.Data.List.Sort

/-!
# The page's list of snapshots

The functions of `useServerSnapshots.ts` on the list it displays: sorting, merging the snapshot of
an event, reconciling the answer of a fetch with the events that came since it was sent. A list has
one snapshot of each server (`Distinct`), the functions keep it so, and what they do to the snapshot
of one server depends on that server only (`Update.onServer`), whatever the sort makes of the order.

The order of names is the browser's: `localeCompare` is `String.prototype.localeCompare` for the
locale `zh-CN`.
-/

namespace TinyProbe.Web

open Live
open TinyProbe.Stream

variable {F : Type}

/-- `eventRevisions.get(serverId) ?? 0`. -/
def revisionOf (eventRevisions : Map Int Nat) (serverID : Int) : Nat :=
  (AList.lookup serverID eventRevisions).getD 0

section Functions

variable (localeCompare : String → String → Int)

/-- The comparison of `sortSnapshots`. -/
def compareSnapshots (left right : Snapshot F) : Int :=
  if left.online != right.online then
    if left.online then 1 else -1
  else localeCompare left.serverName right.serverName

def sortSnapshots (snapshots : List (Snapshot F)) : List (Snapshot F) :=
  snapshots.insertionSort fun left right => compareSnapshots localeCompare left right ≤ 0

def mergeSnapshot (snapshots : List (Snapshot F)) (incoming : Snapshot F) : List (Snapshot F) :=
  match snapshots.findIdx? fun snapshot => snapshot.serverID == incoming.serverID with
  | none => sortSnapshots localeCompare (snapshots ++ [incoming])
  | some index => sortSnapshots localeCompare (snapshots.set index incoming)

/-- What `reconcileFetch` makes of a fetched snapshot. `currentById` is built in order, so a later
snapshot of a server would replace an earlier one. -/
def reconciled (current : List (Snapshot F)) (eventRevisions : Map Int Nat) (requestRevision : Nat)
    (incoming : Snapshot F) : Snapshot F :=
  match lastOf Snapshot.serverID incoming.serverID current with
  | none => incoming
  | some existing =>
    if requestRevision < revisionOf eventRevisions incoming.serverID then existing else incoming

def reconcileFetch (current fetched : List (Snapshot F)) (eventRevisions : Map Int Nat)
    (requestRevision : Nat) : List (Snapshot F) :=
  let fetchedIds := fetched.map Snapshot.serverID
  sortSnapshots localeCompare
    (fetched.map (reconciled current eventRevisions requestRevision) ++
      current.filter fun existing => decide (existing.serverID ∉ fetchedIds) &&
        decide (requestRevision < revisionOf eventRevisions existing.serverID))

end Functions

/-- A function that the page has passed to `setSnapshots`. -/
inductive Update (F : Type) where
  /-- Of `handleSnapshot`. -/
  | merge (incoming : Snapshot F)
  /-- Of `refresh`. -/
  | reconcile (fetched : List (Snapshot F)) (requestRevision : Nat)

/-- The list has one snapshot of each server. -/
def Distinct (snapshots : List (Snapshot F)) : Prop := (snapshots.map Snapshot.serverID).Nodup

/-- The snapshot of a server. -/
def snapshotOf? (serverID : Int) (snapshots : List (Snapshot F)) : Option (Snapshot F) :=
  snapshots.find? fun snapshot => snapshot.serverID == serverID

namespace Update

/-- The function, run when the events have these revisions. -/
def apply (localeCompare : String → String → Int) (eventRevisions : Map Int Nat)
    (current : List (Snapshot F)) : Update F → List (Snapshot F)
  | .merge incoming => mergeSnapshot localeCompare current incoming
  | .reconcile fetched requestRevision =>
    reconcileFetch localeCompare current fetched eventRevisions requestRevision

/-- What the function does to the snapshot of one server. -/
def onServer (serverID : Int) (revision : Nat) (shown : Option (Snapshot F)) :
    Update F → Option (Snapshot F)
  | .merge incoming => if incoming.serverID = serverID then some incoming else shown
  | .reconcile fetched requestRevision =>
    if requestRevision < revision then shown.or (snapshotOf? serverID fetched)
    else snapshotOf? serverID fetched

/-- What is fetched has one snapshot of each server. -/
def Distinct : Update F → Prop
  | .merge _ => True
  | .reconcile fetched _ => Web.Distinct fetched

end Update

section Laws

variable {localeCompare : String → String → Int} {snapshots current fetched : List (Snapshot F)}
  {eventRevisions : Map Int Nat} {requestRevision : Nat} {incoming : Snapshot F} {id : Int}

private theorem snapshotOf?_serverID {snapshot : Snapshot F}
    (h : snapshotOf? id snapshots = some snapshot) :
    snapshot.serverID = id :=
  Table.key_of_find? Snapshot.serverID h

/-- In a list with one snapshot per server, what is found for a server is its snapshot. -/
theorem snapshotOf?_eq_some_iff {snapshot : Snapshot F} (h : Distinct snapshots) :
    snapshotOf? id snapshots = some snapshot ↔ snapshot ∈ snapshots ∧ snapshot.serverID = id :=
  Table.find?_eq_some_iff Snapshot.serverID h

/-- Sorting a list changes no lookup. -/
theorem snapshotOf?_perm {snapshots' : List (Snapshot F)} (hperm : snapshots'.Perm snapshots)
    (h : Distinct snapshots) : snapshotOf? id snapshots' = snapshotOf? id snapshots :=
  Table.find?_perm Snapshot.serverID hperm.symm h

/-- One snapshot per server is a matter of the members, not of their order. -/
theorem Distinct.perm {snapshots' : List (Snapshot F)} (h : Distinct snapshots)
    (hperm : snapshots'.Perm snapshots) : Distinct snapshots' :=
  (hperm.map Snapshot.serverID).nodup_iff.mpr h

/-- `sortSnapshots` drops nothing and adds nothing, whatever the locale compares. -/
theorem sortSnapshots_perm (snapshots : List (Snapshot F)) :
    (sortSnapshots localeCompare snapshots).Perm snapshots :=
  List.perm_insertionSort _ _

theorem Distinct.sort (h : Distinct snapshots) : Distinct (sortSnapshots localeCompare snapshots) :=
  h.perm (sortSnapshots_perm snapshots)

/-- Sorting does not change the snapshot of a server. -/
theorem snapshotOf?_sort (h : Distinct snapshots) :
    snapshotOf? id (sortSnapshots localeCompare snapshots) = snapshotOf? id snapshots :=
  snapshotOf?_perm (sortSnapshots_perm snapshots) h

/-- `currentById` finds the snapshot of a server. -/
theorem lastOf_eq_snapshotOf? (h : Distinct snapshots) :
    lastOf Snapshot.serverID id snapshots = snapshotOf? id snapshots := by
  cases hlast : lastOf Snapshot.serverID id snapshots with
  | none =>
    refine (List.find?_eq_none.mpr fun snapshot hmem => ?_).symm
    rw [beq_iff_eq]
    exact lastOf_eq_none_iff.mp hlast snapshot hmem
  | some snapshot => exact ((snapshotOf?_eq_some_iff h).mpr (lastOf_mem hlast)).symm

/-- A server that `findIndex` does not find has no snapshot in the list. -/
private theorem fresh_of_findIdx? {incoming : Snapshot F}
    (h : (snapshots.findIdx? fun snapshot => snapshot.serverID == incoming.serverID) = none) :
    ∀ snapshot ∈ snapshots, snapshot.serverID ≠ incoming.serverID := fun snapshot hmem =>
  beq_eq_false_iff_ne.mp (List.findIdx?_eq_none_iff.mp h snapshot hmem)

/-- A snapshot of a new server comes to the others. -/
theorem Distinct.append (h : Distinct snapshots)
    (hfresh : ∀ snapshot ∈ snapshots, snapshot.serverID ≠ incoming.serverID) :
    Distinct (snapshots ++ [incoming]) := by
  rw [Distinct, List.map_append, List.nodup_append]
  refine ⟨h, List.nodup_singleton _, ?_⟩
  intro other hother last hlast
  obtain ⟨snapshot, hmem, rfl⟩ := List.mem_map.mp hother
  rw [List.mem_singleton.mp hlast]
  exact hfresh snapshot hmem

/-- `mergeSnapshot` replaces the snapshot of its server, or adds the first one. -/
theorem Distinct.merge (h : Distinct snapshots) :
    Distinct (mergeSnapshot localeCompare snapshots incoming) := by
  unfold mergeSnapshot
  split
  next hnone => exact (h.append (fresh_of_findIdx? hnone)).sort
  next hindex =>
    apply Distinct.sort
    rw [Distinct, Table.map_set Snapshot.serverID incoming hindex]
    exact h

/-- After `mergeSnapshot` the server has the incoming snapshot, and the others have what they had.
-/
theorem snapshotOf?_merge (h : Distinct snapshots) :
    snapshotOf? id (mergeSnapshot localeCompare snapshots incoming) =
      if incoming.serverID = id then some incoming else snapshotOf? id snapshots := by
  unfold mergeSnapshot
  split
  next hnone =>
    rw [snapshotOf?_sort (h.append (fresh_of_findIdx? hnone))]
    exact Table.find?_append Snapshot.serverID incoming (fresh_of_findIdx? hnone)
  next index hindex =>
    have hset : Distinct (snapshots.set index incoming) := by
      rw [Distinct, Table.map_set Snapshot.serverID incoming hindex]
      exact h
    rw [snapshotOf?_sort hset]
    exact Table.find?_set Snapshot.serverID incoming hindex

/-- `reconcileFetch` takes a snapshot of the same server, the current one or the fetched one. -/
private theorem reconciled_serverID (incoming : Snapshot F) :
    (reconciled current eventRevisions requestRevision incoming).serverID = incoming.serverID := by
  unfold reconciled
  split
  next => rfl
  next existing hexisting =>
    split
    next => exact (lastOf_mem hexisting).2
    next => rfl

/-- What is displayed and not fetched is kept behind what is fetched. -/
theorem distinct_reconciled (p : Int → Bool) (hcurrent : Distinct current)
    (hfetched : Distinct fetched) :
    Distinct (fetched.map (reconciled current eventRevisions requestRevision) ++
      current.filter fun existing =>
        decide (existing.serverID ∉ fetched.map Snapshot.serverID) && p existing.serverID) := by
  have hids : (fetched.map (reconciled current eventRevisions requestRevision)).map
      Snapshot.serverID = fetched.map Snapshot.serverID := by
    rw [List.map_map]
    exact List.map_congr_left fun incoming _ => reconciled_serverID incoming
  rw [Distinct, List.map_append, List.nodup_append, hids]
  refine ⟨hfetched, hcurrent.sublist (List.filter_sublist.map _), ?_⟩
  rintro id hid other hother rfl
  obtain ⟨existing, hmem, heq⟩ := List.mem_map.mp hother
  have hkept := (List.mem_filter.mp hmem).2
  rw [Bool.and_eq_true_iff, decide_eq_true_iff, heq] at hkept
  exact hkept.1 hid

/-- `reconcileFetch` keeps one snapshot per server. -/
theorem Distinct.reconcile (hcurrent : Distinct current) (hfetched : Distinct fetched) :
    Distinct (reconcileFetch localeCompare current fetched eventRevisions requestRevision) :=
  (distinct_reconciled (fun id => decide (requestRevision < revisionOf eventRevisions id)) hcurrent
    hfetched).sort

/-- After `reconcileFetch` a server that an event has reached since the request keeps what the event
said, and the others have what was fetched. -/
theorem snapshotOf?_reconcile (hcurrent : Distinct current) (hfetched : Distinct fetched) :
    snapshotOf? id (reconcileFetch localeCompare current fetched eventRevisions requestRevision) =
      if requestRevision < revisionOf eventRevisions id then
        (snapshotOf? id current).or (snapshotOf? id fetched)
      else snapshotOf? id fetched := by
  have hkept := @Table.find?_filter _ _ _ Snapshot.serverID current id fun id =>
    decide (id ∉ fetched.map Snapshot.serverID) &&
      decide (requestRevision < revisionOf eventRevisions id)
  have hmapped : snapshotOf? id (fetched.map (reconciled current eventRevisions requestRevision)) =
      (snapshotOf? id fetched).map (reconciled current eventRevisions requestRevision) :=
    Table.find?_map Snapshot.serverID reconciled_serverID
  refine (snapshotOf?_sort (distinct_reconciled
    (fun id => decide (requestRevision < revisionOf eventRevisions id)) hcurrent hfetched)).trans ?_
  rw [snapshotOf?, List.find?_append]
  apply (congrArg₂ Option.or hmapped hkept).trans
  cases hincoming : snapshotOf? id fetched with
  | none =>
    have hnot : id ∉ fetched.map Snapshot.serverID := by
      intro hmem
      obtain ⟨incoming, hmem, heq⟩ := List.mem_map.mp hmem
      have hnone := List.find?_eq_none.mp hincoming incoming hmem
      exact hnone (beq_iff_eq.mpr heq)
    rw [Option.map_none, Option.none_or, decide_eq_true hnot, Bool.true_and, Option.or_none]
    simp only [decide_eq_true_iff]
    rfl
  | some incoming =>
    have hid := snapshotOf?_serverID hincoming
    rw [Option.map_some, Option.some_or, reconciled, hid, lastOf_eq_snapshotOf? hcurrent]
    cases snapshotOf? id current with
    | none => rw [Option.none_or, ite_self]
    | some existing =>
      rw [Option.some_or]
      exact apply_ite some _ _ _

namespace Update

variable {u : Update F}

/-- Every update of the collection keeps one snapshot per server. -/
theorem distinct_apply (hcurrent : Web.Distinct current) (hu : u.Distinct) :
    Web.Distinct (u.apply localeCompare eventRevisions current) := by
  cases u with
  | merge incoming => exact hcurrent.merge
  | reconcile fetched requestRevision => exact hcurrent.reconcile hu

/-- **An update acts server by server.** -/
theorem snapshotOf?_apply (hcurrent : Web.Distinct current) (hu : u.Distinct) :
    snapshotOf? id (u.apply localeCompare eventRevisions current) =
      u.onServer id (revisionOf eventRevisions id) (snapshotOf? id current) := by
  cases u with
  | merge incoming => exact snapshotOf?_merge hcurrent
  | reconcile fetched requestRevision => exact snapshotOf?_reconcile hcurrent hu

end Update

end Laws

end TinyProbe.Web
