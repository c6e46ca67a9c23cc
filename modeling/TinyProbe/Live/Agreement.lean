import TinyProbe.Lib.Stream
import TinyProbe.Live.Steps

/-!
# Published events and the live store

Under the lock the store changes first and the event follows, so the two are compared through the
stream: the events published, and behind them those that the call holding the lock has still to
publish. `Move` says what the coordinator is for in these terms: a store and a stream that change
together, by a report, a sweep, a rename or a deletion. Every step of the coordinator is such a move
(`step_moves`), and every move keeps the two in agreement (`Agrees.move`). When nobody holds the
lock the stream is what has been published.

A call that returns is compared with what it found when it took the lock. Only calls of the
coordinator change the store, the events and what history has accepted, and they take turns, so the
two ends of a call differ by what the call has done.
-/

namespace TinyProbe.Live

open Servers Protocol History Run
open TinyProbe.Stream

variable {F : Type}

/-- The server an event is about. -/
def Event.serverID (e : Event F) : Int := e.snapshot.serverID

/-- An event carries a snapshot: its type says whether the server is online, and the snapshot in it
is this one up to the server's name. -/
def Event.Carries (e : Event F) (snapshot : Snapshot F) : Prop :=
  e.type = (if snapshot.online then .updated else .offline) ∧
    { e.snapshot with serverName := snapshot.serverName } = snapshot

/-- The event of a snapshot that has gone offline. -/
def offlineEvent (snapshot : Snapshot F) : Event F := ⟨.offline, snapshot⟩

/-! ## The abstract store and stream -/

/-- What can become of a store and a stream of events, by calls that were told of the servers
`told`. -/
inductive Move (told : Server → Prop) (store : Store F) (stream : List (Event F)) :
    Store F → List (Event F) → Prop where
  | stay : Move told store stream store stream
  | report (server : Server) (report : AgentReport F) (t : Time) (ip : String)
      (htold : told server) :
      Move told store stream (store.upsertFrom server report t ip).2
        (stream ++ [⟨.updated, Store.snapshotOf server report t ip⟩])
  | sweep (cutoff : Time) (changed : List (Snapshot F))
      (hperm : changed.Perm (store.markOffline cutoff).1) :
      Move told store stream (store.markOffline cutoff).2 (stream ++ changed.map offlineEvent)
  | rename (server : Server) (htold : told server) :
      Move told store stream (store.rename server.id server.name) stream
  | delete (id : Int) : Move told store stream (store.delete id) stream

/-- The last event about each server carries its snapshot, and no server goes offline twice without
a report in between. -/
structure Agrees (store : Store F) (stream : List (Event F)) : Prop where
  keyed : store.Keyed
  last : ∀ id snapshot, store.get id = some snapshot →
    ∃ e, lastOf Event.serverID id stream = some e ∧ e.Carries snapshot
  alternates : Follows Event.serverID (fun e => e.type = .offline) (fun e => e.type = .updated)
    stream

/-- A move leaves each snapshot under the id of its server. -/
theorem Move.keyed {told : Server → Prop} {store store' : Store F} {stream stream' : List (Event F)}
    (hmove : Move told store stream store' stream') (h : store.Keyed) : store'.Keyed := by
  cases hmove with
  | stay => exact h
  | report server report t ip _ => exact h.upsertFrom server report t ip
  | sweep cutoff => exact h.markOffline cutoff
  | rename server _ => exact h.rename server.id server.name
  | delete id => exact h.delete id

theorem carries_self (type : EventType) (snapshot : Snapshot F)
    (h : type = if snapshot.online then .updated else .offline) :
    Event.Carries ⟨type, snapshot⟩ snapshot := ⟨h, rfl⟩

/-- Before any report there is no snapshot and no event. -/
theorem agrees_empty : Agrees (Store.empty : Store F) [] where
  keyed := Store.keyed_empty
  last id snapshot h := by simp only [Store.get_empty, reduceCtorEq] at h
  alternates := follows_nil

/-- The events of a sweep are about distinct servers. -/
theorem nodup_offlineEvents {store : Store F} (hs : store.Keyed) {cutoff : Time}
    {changed : List (Snapshot F)} (hperm : changed.Perm (store.markOffline cutoff).1) :
    ((changed.map offlineEvent).map Event.serverID).Nodup := by
  rw [List.map_map]
  exact ((hperm.map Snapshot.serverID).nodup_iff).mpr (Store.nodup_markOffline hs cutoff)

/-- **A move keeps the store and the stream in agreement.** -/
theorem Agrees.move {told : Server → Prop} {store store' : Store F} {stream stream' : List (Event F)}
    (h : Agrees store stream) (hmove : Move told store stream store' stream') :
    Agrees store' stream' := by
  have hkeyed := hmove.keyed h.keyed
  cases hmove with
  | stay => exact h
  | report server report t ip _ =>
    refine ⟨hkeyed, ?_, ?_⟩
    · intro id snapshot hget
      rw [lastOf_snoc]
      rw [Store.get_upsertFrom] at hget
      by_cases hid : id = server.id
      · rw [if_pos hid] at hget
        cases hget
        exact ⟨_, if_pos hid.symm, carries_self _ _ rfl⟩
      · rw [if_neg hid] at hget
        obtain ⟨e, he, hcarries⟩ := h.last id snapshot hget
        exact ⟨e, by rw [if_neg fun heq => hid heq.symm, he], hcarries⟩
    · exact h.alternates.snoc fun hoffline => by cases hoffline
  | sweep cutoff changed hperm =>
    have hkeys := nodup_offlineEvents h.keyed hperm
    refine ⟨hkeyed, ?_, ?_⟩
    · intro id snapshot hget
      by_cases hid : id ∈ (store.markOffline cutoff).1.map Snapshot.serverID
      · obtain ⟨new, hnew, rfl⟩ := List.mem_map.mp hid
        obtain rfl : new = snapshot :=
          Option.some.inj ((Store.get_of_changed h.keyed hnew).symm.trans hget)
        have hmem : offlineEvent new ∈ changed.map offlineEvent :=
          List.mem_map_of_mem (hperm.mem_iff.mpr hnew)
        refine ⟨_, lastOf_append_of_mem hkeys hmem, carries_self _ _ ?_⟩
        obtain ⟨old, _, hexp, rfl⟩ := (Store.mem_markOffline h.keyed).mp hnew
        rw [Store.online_of_expired hexp]
        rfl
      · rw [Store.get_of_not_changed h.keyed hid] at hget
        obtain ⟨e, he, hcarries⟩ := h.last id snapshot hget
        refine ⟨e, ?_, hcarries⟩
        rw [lastOf_append_of_ne, he]
        intro a ha heq
        obtain ⟨new, hnew, rfl⟩ := List.mem_map.mp ha
        exact hid (List.mem_map.mpr ⟨new, hperm.mem_iff.mp hnew, heq⟩)
    · apply h.alternates.append hkeys
      intro a ha _
      obtain ⟨new, hnew, rfl⟩ := List.mem_map.mp ha
      obtain ⟨old, hold, hexp, _⟩ := (Store.mem_markOffline h.keyed).mp (hperm.mem_iff.mp hnew)
      obtain ⟨e, he, htype, _⟩ := h.last _ old hold
      have honline : old.online = true := (Bool.and_eq_true_iff.mp hexp).1
      rw [honline] at htype
      exact ⟨e, he, htype⟩
  | rename server _ =>
    refine ⟨hkeyed, ?_, h.alternates⟩
    intro id snapshot hget
    rw [Store.get_rename] at hget
    split at hget
    next =>
      obtain ⟨old, hold, rfl⟩ := Option.map_eq_some_iff.mp hget
      obtain ⟨e, he, htype, heq⟩ := h.last id old hold
      refine ⟨e, he, htype, ?_⟩
      rw [← heq]
    next => exact h.last id snapshot hget
  | delete id' =>
    refine ⟨hkeyed, ?_, h.alternates⟩
    intro id snapshot hget
    rw [Store.get_delete] at hget
    split at hget
    next => cases hget
    next => exact h.last id snapshot hget

/-- In the snapshot of a server and the events about it from some point of the stream on, its name
meets `p`. No name meets `fun _ => False`, so there is then no snapshot and no such event. -/
structure Names (id : Int) (p : String → Prop) (start : Nat) (store : Store F)
    (stream : List (Event F)) : Prop where
  start_le : start ≤ stream.length
  stored : ∀ snapshot, store.get id = some snapshot → p snapshot.serverName
  later : ∀ e ∈ stream.drop start, e.serverID = id → p e.snapshot.serverName

/-- New events and snapshots with such names keep the names to `p`. -/
theorem Names.append {id : Int} {p : String → Prop} {start : Nat} {store store' : Store F}
    {stream new : List (Event F)} (h : Names id p start store stream)
    (hstored : ∀ snapshot, store'.get id = some snapshot → p snapshot.serverName)
    (hnew : ∀ e ∈ new, e.serverID = id → p e.snapshot.serverName) :
    Names id p start store' (stream ++ new) := by
  refine ⟨Nat.le_trans h.start_le (by rw [List.length_append]; exact Nat.le_add_right _ _),
    hstored, ?_⟩
  intro e he
  rw [List.drop_append_of_le_length h.start_le] at he
  rcases List.mem_append.mp he with he | he
  · exact h.later e he
  · exact hnew e he

/-- **A move keeps to the names** that its callers are told. -/
theorem Names.move {told : Server → Prop} {id : Int} {p : String → Prop} {start : Nat}
    {store store' : Store F} {stream stream' : List (Event F)}
    (h : Names id p start store stream) (hmove : Move told store stream store' stream')
    (hkeyed : store.Keyed) (htold : ∀ server, told server → server.id = id → p server.name) :
    Names id p start store' stream' := by
  cases hmove with
  | stay => exact h
  | report server report t ip hserver =>
    refine h.append ?_ ?_
    · intro snapshot hget
      rw [Store.get_upsertFrom] at hget
      split at hget
      next hid =>
        cases hget
        exact htold server hserver hid.symm
      next => exact h.stored snapshot hget
    · intro e he hid
      obtain rfl := List.mem_singleton.mp he
      exact htold server hserver hid
  | sweep cutoff changed hperm =>
    refine h.append ?_ ?_
    · intro snapshot hget
      rw [Store.get_markOffline] at hget
      obtain ⟨old, hold, rfl⟩ := Option.map_eq_some_iff.mp hget
      rw [Store.mark_serverName]
      exact h.stored old hold
    · intro e he hid
      obtain ⟨new, hnew, rfl⟩ := List.mem_map.mp he
      obtain ⟨old, hold, _, heq⟩ := (Store.mem_markOffline hkeyed).mp (hperm.mem_iff.mp hnew)
      show p new.serverName
      rw [heq, Store.mark_serverName]
      exact h.stored old (hid ▸ hold)
  | rename server hserver =>
    refine ⟨h.start_le, ?_, h.later⟩
    intro snapshot hget
    rw [Store.get_rename] at hget
    split at hget
    next hid =>
      obtain ⟨old, _, rfl⟩ := Option.map_eq_some_iff.mp hget
      exact htold server hserver hid.symm
    next => exact h.stored snapshot hget
  | delete id' =>
    refine ⟨h.start_le, ?_, h.later⟩
    intro snapshot hget
    rw [Store.get_delete] at hget
    split at hget
    next => cases hget
    next => exact h.stored snapshot hget

/-- Between two offline events of a server there is an updated one. -/
theorem Agrees.between {store : Store F} {stream : List (Event F)} (h : Agrees store stream)
    {before middle after : List (Event F)} {a b : Event F}
    (heq : stream = before ++ a :: middle ++ b :: after) (ha : a.type = .offline)
    (hb : b.type = .offline) (hid : a.serverID = b.serverID) :
    ∃ c ∈ middle, c.type = .updated ∧ c.serverID = a.serverID := by
  obtain ⟨c, hc, htype⟩ := h.alternates (before ++ a :: middle) b after heq hb
  rw [← List.singleton_append, ← List.append_assoc, lastOf_append] at hc
  cases hmiddle : lastOf Event.serverID b.serverID middle with
  | some d =>
    rw [hmiddle, Option.some_or] at hc
    cases hc
    have hmem := lastOf_mem hmiddle
    exact ⟨c, hmem.1, htype, hmem.2.trans hid.symm⟩
  | none =>
    -- then the event before `b` would be `a`, which is no update
    rw [hmiddle, Option.none_or, lastOf_snoc, if_pos hid] at hc
    cases hc
    rw [ha] at htype
    cases htype

/-! ## The coordinator's steps are moves -/

/-- The events a phase has still to publish. -/
def Phase.pending : Phase F → List (Event F)
  | .publishing _ _ snapshot => [⟨.updated, snapshot⟩]
  | .sweeping todo => todo.map offlineEvent
  | _ => []

/-- A call that has just taken the lock has nothing to publish. -/
theorem Op.Starts.pending {op : Op F} {phase : Phase F} (h : op.Starts phase) :
    phase.pending = [] := by
  cases h <;> rfl

namespace Coordinator

variable [Float64 F]

/-- The events that the call holding the lock has still to publish. -/
def pending (s : Coordinator F) : List (Event F) := s.holder.elim [] fun h => h.phase.pending

/-- The events published, and those to come from the call that holds the lock. -/
def stream (s : Coordinator F) : List (Event F) := s.published ++ s.pending

/-- When nobody holds the lock, the stream is what has been published. -/
theorem stream_free {s : Coordinator F} (h : s.holder = none) : s.stream = s.published := by
  rw [stream, pending, h]
  exact List.append_nil _

/-- Else what the phase of the call has to publish comes behind it. -/
theorem stream_held {s : Coordinator F} {h : Holder F} {phase : Phase F}
    (hheld : s.holder = some h) (hphase : h.phase = phase) :
    s.stream = s.published ++ phase.pending := by
  rw [stream, pending, hheld, ← hphase]
  rfl

section Moves

variable {s s' : Coordinator F} {a : Action F} {h : Holder F} {outcome : Outcome}

/-- Whatever the call that holds the lock does next is a move. -/
theorem turn_moves (hheld : s.holder = some h) (hturn : Turn s h outcome s') :
    Move s.Told s.store s.stream s'.store s'.stream := by
  have hstay : ∀ {store : Store F} {stream stream' : List (Event F)}, stream' = stream →
      Move s.Told store stream store stream' := by
    rintro store stream _ rfl
    exact .stay
  cases hturn with
  | refused hphase | unversioned hphase | swept hphase | notUpdated hphase | notDeleted hphase
  | recorded hphase | removed hphase =>
    apply hstay
    rw [stream_held hheld hphase, stream_free rfl]
    exact (List.append_nil _).symm
  | authenticated hphase _ | versioned hphase _ | updated hphase _ | deleted hphase _ =>
    apply hstay
    rw [stream_held hheld hphase, stream_held rfl rfl]
    rfl
  | stored hphase =>
    rw [stream_held hheld hphase, stream_held rfl rfl]
    show Move s.Told s.store (s.published ++ []) _ _
    rw [List.append_nil]
    exact .report _ _ _ _ ⟨h, hheld, by rw [hphase]; rfl⟩
  | published hphase =>
    apply hstay
    rw [stream_held hheld hphase, stream_held rfl rfl]
    exact List.append_nil _
  | offline hphase =>
    apply hstay
    rw [stream_held hheld hphase, stream_held rfl rfl]
    exact List.append_assoc _ _ _
  | renamed hphase =>
    rw [stream_held hheld hphase, stream_free rfl]
    show Move s.Told s.store (s.published ++ []) _ _
    rw [List.append_nil]
    exact .rename _ ⟨h, hheld, by rw [hphase]; rfl⟩
  | dropped hphase =>
    rw [stream_held hheld hphase, stream_held rfl rfl]
    exact .delete _

/-- A step on the side moves nothing. -/
theorem move_stay (hstore : s'.store = s.store) (hpublished : s'.published = s.published)
    (hholder : s'.holder = s.holder) : Move s.Told s.store s.stream s'.store s'.stream := by
  have hstream : s'.stream = s.stream := by
    unfold stream pending
    rw [hpublished, hholder]
  rw [hstore, hstream]
  exact .stay

/-- **Every step is a move** of the store and the stream. -/
theorem step_moves (hkeyed : s.store.Keyed) (hstep : Step s a s') :
    Move s.Told s.store s.stream s'.store s'.stream := by
  cases hstep with
  | stay => exact .stay
  | locked _ hfree hstarts =>
    rw [stream_free hfree, stream_held rfl rfl, hstarts.pending, List.append_nil]
    exact .stay
  | marked hfree horder =>
    rw [stream_free hfree, stream_held rfl rfl]
    exact .sweep _ _ (Store.swept_perm hkeyed horder)
  | turn hheld hturn => exact turn_moves hheld hturn
  | created | notRotated | rotated | rotationReturned | flushed => exact move_stay rfl rfl rfl

/-- Every step of the coordinator keeps the store and the stream in agreement. -/
theorem agrees_step (h : Agrees s.store s.stream) (hstep : Step s a s') :
    Agrees s'.store s'.stream := h.move (step_moves h.keyed hstep)

end Moves

end Coordinator

/-! ## Calls that return -/

/-- A sweep has published an offline event for exactly the servers that were online and last heard
of before its cutoff, and has left none of them online. -/
structure SweptExactly (cutoff : Time) (before after : View F) : Prop where
  published : ∃ events, after.published = before.published ++ events ∧
    (∀ e ∈ events, e.type = .offline) ∧ (events.map Event.serverID).Nodup ∧
    ∀ id, id ∈ events.map Event.serverID ↔ ∃ snapshot, before.store.get id = some snapshot ∧
      snapshot.online = true ∧ snapshot.lastReceivedAt.before cutoff = true
  kept : ∀ id snapshot, after.store.get id = some snapshot → snapshot.online = true →
    cutoff.ns ≤ snapshot.lastReceivedAt.ns

/-- What is true of every call that has returned. -/
structure Returned.Sound (r : Returned F) : Prop where
  failed : r.ok = false → r.after = r.before
  swept : ∀ cutoff, r.op = .sweep cutoff → SweptExactly cutoff r.before r.after

/-- The phase of the call that holds the lock fits its operation, and what it has changed so far:
before its statement has succeeded nothing, and a sweep the store and the events it has come to. -/
def Holder.Fits (h : Holder F) (v : View F) : Prop :=
  match h.phase with
  | .authenticating call | .versioning call _ => h.op = .accept call ∧ v = h.entered
  | .storing call _ | .publishing call _ _ | .recording call _ => h.op = .accept call
  | .sweeping todo => ∃ cutoff done, h.op = .sweep cutoff ∧ h.entered.store.Keyed ∧
      (done ++ todo).Perm (h.entered.store.markOffline cutoff).1 ∧
      v = ⟨(h.entered.store.markOffline cutoff).2, h.entered.published ++ done.map offlineEvent,
        h.entered.accepted⟩
  | .updating id name enabled => h.op = .update id name enabled ∧ v = h.entered
  | .renaming server => ∃ name enabled, h.op = .update server.id name enabled ∧
      ∀ n, name = some n → server.name = n
  | .deleting id => h.op = .delete id ∧ v = h.entered
  | .dropping id | .removing id => h.op = .delete id

/-- The servers of a sweep's events are those it has found expired. -/
theorem mem_offlineEvents {store : Store F} (hs : store.Keyed) {cutoff : Time}
    {changed : List (Snapshot F)} (hperm : changed.Perm (store.markOffline cutoff).1) (id : Int) :
    id ∈ (changed.map offlineEvent).map Event.serverID ↔ ∃ snapshot, store.get id = some snapshot ∧
      snapshot.online = true ∧ snapshot.lastReceivedAt.before cutoff = true := by
  rw [List.map_map]
  constructor
  · intro hid
    obtain ⟨new, hnew, rfl⟩ := List.mem_map.mp hid
    obtain ⟨old, hold, hexp, _⟩ := (Store.mem_markOffline hs).mp (hperm.mem_iff.mp hnew)
    exact ⟨old, hold, Bool.and_eq_true_iff.mp hexp⟩
  · rintro ⟨old, hold, honline, hbefore⟩
    have hserver : (Store.mark cutoff old).serverID = id := by
      rw [Store.mark_serverID]
      exact hs id old hold
    have hexp : Store.expired cutoff old = true := Bool.and_eq_true_iff.mpr ⟨honline, hbefore⟩
    have hmem := (Store.mem_markOffline hs).mpr ⟨old, by rw [hserver]; exact hold, hexp, rfl⟩
    exact List.mem_map.mpr ⟨_, hperm.mem_iff.mpr hmem, hserver⟩

/-- After a sweep who is online has been heard of since the cutoff. -/
theorem le_of_online {store : Store F} {cutoff : Time} {id : Int} {snapshot : Snapshot F}
    (hget : (store.markOffline cutoff).2.get id = some snapshot) (honline : snapshot.online = true) :
    cutoff.ns ≤ snapshot.lastReceivedAt.ns := by
  rw [Store.get_markOffline] at hget
  obtain ⟨old, _, rfl⟩ := Option.map_eq_some_iff.mp hget
  by_cases hexp : Store.expired cutoff old = true
  · rw [Store.online_of_expired hexp] at honline
    cases honline
  · rw [Store.mark, if_neg hexp] at honline ⊢
    rw [Store.expired, honline, Bool.true_and, Time.before_iff] at hexp
    exact Int.not_lt.mp hexp

/-- Marking the expired snapshots and publishing them is the sweep as promised. -/
theorem sweptExactly {before : View F} {cutoff : Time} {changed : List (Snapshot F)}
    (hs : before.store.Keyed) (hperm : changed.Perm (before.store.markOffline cutoff).1) :
    SweptExactly cutoff before
      ⟨(before.store.markOffline cutoff).2, before.published ++ changed.map offlineEvent,
        before.accepted⟩ where
  published := by
    refine ⟨_, rfl, ?_, nodup_offlineEvents hs hperm, mem_offlineEvents hs hperm⟩
    intro e he
    obtain ⟨snapshot, _, rfl⟩ := List.mem_map.mp he
    rfl
  kept id snapshot hget honline := le_of_online hget honline

/-- A call that fails has to leave everything as it found it. -/
theorem sound_failed {op : Op F} {v : View F} (hop : ∀ cutoff, op ≠ .sweep cutoff) :
    Returned.Sound ⟨op, false, v, v⟩ := ⟨fun _ => rfl, fun cutoff heq => absurd heq (hop cutoff)⟩

theorem sound_ok {op : Op F} {before after : View F} (hop : ∀ cutoff, op ≠ .sweep cutoff) :
    Returned.Sound ⟨op, true, before, after⟩ :=
  ⟨fun hok => Bool.noConfusion hok, fun cutoff heq => absurd heq (hop cutoff)⟩

/-- A call that has just taken the lock fits what it found. -/
theorem fits_starts {op : Op F} {phase : Phase F} {v : View F} (hstarts : op.Starts phase) :
    Holder.Fits ⟨op, phase, v⟩ v := by
  cases hstarts <;> exact ⟨rfl, rfl⟩

namespace Coordinator

variable [Float64 F]

/-- Calls take turns: the one that holds the lock fits what has changed since, and those that have
returned were sound. -/
structure Orderly (s : Coordinator F) : Prop where
  keyed : s.store.Keyed
  fits : ∀ h, s.holder = some h → h.Fits s.view
  returned : ∀ r ∈ s.returned, r.Sound

section Steps

variable {s s' : Coordinator F} {a : Action F} {h : Holder F} {outcome : Outcome}

theorem orderly_initial (tables : Tables F) : (initial tables).Orderly where
  keyed := Store.keyed_empty
  fits h hheld := by cases hheld
  returned r hr := by cases hr

/-- A flush changes nothing that a call of the coordinator answers for. -/
theorem view_flush {b : Aggregator.Action F} (hflush : b.ofFlush = true) :
    ({ s with history := s.history.step b } : Coordinator F).view = s.view := by
  show View.mk s.store s.published (s.history.step b).accepted = _
  rw [(Aggregator.step_flush hflush).1]
  rfl

/-- The call that returns is sound. -/
theorem turn_sound (hfits : h.Fits s.view) (hturn : Turn s h outcome s') :
    s'.returned = s.returned ∨ s'.holder = none ∧
      ∃ r : Returned F, r.Sound ∧ s'.returned = s.returned ++ [r] := by
  unfold Holder.Fits at hfits
  cases hturn with
  | refused hphase | unversioned hphase | notUpdated hphase | notDeleted hphase =>
    rw [hphase] at hfits
    obtain ⟨hop, hview⟩ := hfits
    refine Or.inr ⟨rfl, _, ?_, rfl⟩
    show Returned.Sound ⟨h.op, false, h.entered, s.view⟩
    rw [hview, hop]
    exact sound_failed fun cutoff heq => by cases heq
  | recorded hphase | removed hphase =>
    rw [hphase] at hfits
    refine Or.inr ⟨rfl, _, ?_, rfl⟩
    refine sound_ok fun cutoff heq => ?_
    rw [hfits] at heq
    cases heq
  | renamed hphase =>
    rw [hphase] at hfits
    obtain ⟨name, enabled, hop, _⟩ := hfits
    refine Or.inr ⟨rfl, _, ?_, rfl⟩
    refine sound_ok fun cutoff heq => ?_
    rw [hop] at heq
    cases heq
  | swept hphase =>
    rw [hphase] at hfits
    obtain ⟨cutoff, done, hop, hkeyed, hperm, hview⟩ := hfits
    rw [List.append_nil] at hperm
    refine Or.inr ⟨rfl, _, ?_, rfl⟩
    show Returned.Sound ⟨h.op, true, h.entered, s.view⟩
    rw [hview, hop]
    refine ⟨fun hok => Bool.noConfusion hok, fun cutoff' heq => ?_⟩
    cases heq
    exact sweptExactly hkeyed hperm
  | authenticated | versioned | stored | published | offline | updated | deleted | dropped =>
    exact Or.inl rfl

/-- The call that goes on fits what it has changed. -/
theorem turn_fits (hfits : h.Fits s.view) (hturn : Turn s h outcome s') :
    ∀ h', s'.holder = some h' → h'.Fits s'.view := by
  intro h' hheld'
  unfold Holder.Fits at hfits
  cases hturn with
  | refused | unversioned | recorded | swept | notUpdated | renamed | notDeleted | removed =>
    cases hheld'
  | authenticated hphase _ =>
    cases hheld'
    rw [hphase] at hfits
    exact hfits
  | versioned hphase _ | stored hphase | published hphase =>
    cases hheld'
    rw [hphase] at hfits
    first | exact hfits.1 | exact hfits
  | @offline snapshot todo hphase =>
    cases hheld'
    rw [hphase] at hfits
    obtain ⟨cutoff, done, hop, hkeyed, hperm, hview⟩ := hfits
    refine ⟨cutoff, done ++ [snapshot], hop, hkeyed, ?_, ?_⟩
    · rwa [List.append_assoc]
    · rw [view, View.mk.injEq] at hview
      obtain ⟨hstore, hpublished, haccepted⟩ := hview
      rw [List.map_append, ← List.append_assoc, ← hpublished, ← hstore, ← haccepted]
      rfl
  | updated hphase hok =>
    cases hheld'
    rw [hphase] at hfits
    obtain ⟨hid, hname, _⟩ := Service.update_ok hok
    exact ⟨_, _, hid.symm ▸ hfits.1, hname⟩
  | deleted hphase _ =>
    cases hheld'
    rw [hphase] at hfits
    exact hfits.1
  | dropped hphase =>
    cases hheld'
    rw [hphase] at hfits
    exact hfits

theorem Orderly.of_eq (hs : s.Orderly) (hstore : s'.store = s.store)
    (hholder : s'.holder = s.holder) (hview : s'.view = s.view)
    (hreturned : s'.returned = s.returned) : s'.Orderly :=
  ⟨hstore ▸ hs.keyed, by rw [hholder, hview]; exact hs.fits, hreturned ▸ hs.returned⟩

theorem view_congr (hstore : s'.store = s.store) (hpublished : s'.published = s.published)
    (hhistory : s'.history = s.history) : s'.view = s.view := by
  rw [view, hstore, hpublished, hhistory]
  rfl

/-- Every step keeps the calls in order, and judges a call when it returns. -/
theorem Orderly.step (hs : s.Orderly) (hstep : Step s a s') : s'.Orderly := by
  have hkeyed : s'.store.Keyed := (step_moves hs.keyed hstep).keyed hs.keyed
  cases hstep with
  | stay => exact hs
  | locked _ hfree hstarts =>
    refine ⟨hkeyed, ?_, hs.returned⟩
    intro h hheld
    cases hheld
    exact fits_starts hstarts
  | marked hfree horder =>
    refine ⟨hkeyed, ?_, hs.returned⟩
    intro h hheld
    cases hheld
    exact ⟨_, [], rfl, hs.keyed, Store.swept_perm hs.keyed horder, by
      rw [List.map_nil, List.append_nil]; rfl⟩
  | turn hheld hturn =>
    refine ⟨hkeyed, turn_fits (hs.fits _ hheld) hturn, ?_⟩
    rcases turn_sound (hs.fits _ hheld) hturn with hsame | ⟨_, r, hr, hgrown⟩
    · rw [hsame]
      exact hs.returned
    · rw [hgrown]
      intro r' hr'
      rcases List.mem_append.mp hr' with hr' | hr'
      · exact hs.returned r' hr'
      · exact List.mem_singleton.mp hr' ▸ hr
  | created | notRotated | rotated | rotationReturned =>
    exact hs.of_eq rfl rfl (view_congr rfl rfl rfl) rfl
  | flushed hflush _ => exact hs.of_eq rfl rfl (view_flush hflush) rfl

end Steps

/-! ## The runs -/

/-- No statement of the step gives the server another name. -/
def KeepsName (id : Int) (name : String) (s : Coordinator F) (a : Action F) : Prop :=
  ∀ outcome h other enabled, a = .proceed outcome → s.holder = some h →
    h.phase = .updating id (some other) enabled → outcome.applied = true → other = name

/-- What is true of every state the coordinator reaches. -/
structure Faithful (s : Coordinator F) : Prop where
  /-- The store agrees with the events published and those that the call holding the lock has still
  to publish. -/
  agrees : Agrees s.store s.stream
  /-- With no call under way, the last event published about a server carries its snapshot. -/
  carried : s.holder = none → ∀ id snapshot, s.store.get id = some snapshot →
    ∃ e, lastOf Event.serverID id s.published = some e ∧ e.Carries snapshot
  /-- Between two offline events of a server there is an updated one. -/
  between : ∀ before middle after a b, s.published = before ++ a :: middle ++ b :: after →
    a.type = .offline → b.type = .offline → a.serverID = b.serverID →
      ∃ c ∈ middle, c.type = .updated ∧ c.serverID = a.serverID
  /-- A sweep has published what it should, and a call that failed has published nothing and left
  the store and history as they were. -/
  calls : ∀ r ∈ s.returned, r.Sound
  /-- No bucket is touched by the step at which a call fails. -/
  buckets : ∀ a op before after,
    (s.step a).returned = s.returned ++ [⟨op, false, before, after⟩] →
      (s.step a).history.buckets = s.history.buckets
  /-- Once a rename has returned, the snapshot and every later event have the new name, until the
  server is given another. -/
  renamed : ∀ a id name enabled before after bs,
    (s.step a).returned =
      s.returned ++ [⟨.update id (some name) enabled, true, before, after⟩] →
    Guarded step (KeepsName id name) (s.step a) bs →
      let s' := run step (s.step a) bs
      (∀ snapshot, s'.store.get id = some snapshot → snapshot.serverName = name) ∧
        ∀ e ∈ s'.published.drop (s.step a).published.length,
          e.serverID = id → e.snapshot.serverName = name

section Runs

variable {s s' : Coordinator F} {a : Action F} {id : Int} {name : String}

theorem KeepsName.spares (h : KeepsName id name s a) :
    Spares id (fun server => server.name = name) s a := by
  intro outcome holder other enabled ha hheld hphase happlied server hserver
  cases other with
  | none => exact hserver
  | some other => exact h outcome holder other enabled ha hheld hphase happlied

/-- A step appends at most the call that returns by it. -/
theorem returned_step {r : Returned F} (hstep : Step s a s')
    (hreturned : s'.returned = s.returned ++ [r]) :
    ∃ h outcome, a = .proceed outcome ∧ s.holder = some h ∧ Turn s h outcome s' := by
  have hsame : s.returned ≠ s.returned ++ [r] := fun heq =>
    List.cons_ne_nil r [] (List.self_eq_append_right.mp heq)
  cases hstep with
  | turn hheld hturn => exact ⟨_, _, rfl, hheld, hturn⟩
  | _ => exact absurd hreturned hsame

/-- The call that returns is the one that has held the lock. -/
theorem turn_returned {h : Holder F} {outcome : Outcome} {op : Op F} {ok : Bool}
    {before after : View F} (hturn : Turn s h outcome s')
    (hreturned : s'.returned = s.returned ++ [⟨op, ok, before, after⟩]) :
    s'.holder = none ∧ h.op = op := by
  have hsame : s.returned ≠ s.returned ++ [⟨op, ok, before, after⟩] :=
    fun heq => List.cons_ne_nil _ [] (List.self_eq_append_right.mp heq)
  cases hturn with
  | authenticated | versioned | stored | published | offline | updated | deleted | dropped =>
    exact absurd hreturned hsame
  | _ =>
    refine ⟨rfl, ?_⟩
    exact congrArg Returned.op (List.singleton_inj.mp (List.append_cancel_left hreturned))

/-- A call that fails leaves everything as it has found it. -/
theorem failed_returns {h : Holder F} {outcome : Outcome} {op : Op F} {before after : View F}
    (hfits : h.Fits s.view) (hturn : Turn s h outcome s')
    (hreturned : s'.returned = s.returned ++ [⟨op, false, before, after⟩]) :
    s.view = before ∧ s'.view = before ∧ s'.history.buckets = s.history.buckets := by
  obtain ⟨hfree, _⟩ := turn_returned hturn hreturned
  unfold Holder.Fits at hfits
  cases hturn with
  | refused hphase | unversioned hphase | notUpdated hphase | notDeleted hphase =>
    rw [hphase] at hfits
    have hbefore : h.entered = before :=
      congrArg Returned.before (List.singleton_inj.mp (List.append_cancel_left hreturned))
    have hview := hfits.2.trans hbefore
    exact ⟨hview, hview, rfl⟩
  | recorded | swept | renamed | removed =>
    cases congrArg Returned.ok (List.singleton_inj.mp (List.append_cancel_left hreturned))
  | authenticated | versioned | stored | published | offline | updated | deleted | dropped =>
    cases hfree

/-- An update that has succeeded returns by its rename. -/
theorem update_returns {h : Holder F} {outcome : Outcome} {given : Option String}
    {enabled : Option Bool} {before after : View F} (hfits : h.Fits s.view)
    (hturn : Turn s h outcome s')
    (hreturned : s'.returned = s.returned ++ [⟨.update id given enabled, true, before, after⟩]) :
    ∃ server, h.phase = .renaming server ∧ server.id = id ∧ (∀ n, given = some n → server.name = n) ∧
      s'.holder = none ∧ s'.store = s.store.rename server.id server.name := by
  obtain ⟨hfree, hop⟩ := turn_returned hturn hreturned
  unfold Holder.Fits at hfits
  cases hturn with
  | refused | unversioned | notUpdated | notDeleted =>
    cases congrArg Returned.ok (List.singleton_inj.mp (List.append_cancel_left hreturned))
  | recorded hphase | removed hphase =>
    rw [hphase] at hfits
    cases hfits.symm.trans hop
  | swept hphase =>
    rw [hphase] at hfits
    obtain ⟨cutoff, done, hsweep, _⟩ := hfits
    cases hsweep.symm.trans hop
  | @renamed server hphase =>
    rw [hphase] at hfits
    obtain ⟨name, enabled', hupdate, hname⟩ := hfits
    cases hupdate.symm.trans hop
    exact ⟨server, hphase, rfl, hname, rfl, rfl⟩
  | authenticated | versioned | stored | published | offline | updated | deleted | dropped =>
    cases hfree

/-- The step by which a rename returns leaves the server with its name. -/
theorem renamed_step {enabled : Option Bool} {before after : View F} (hs : s.Orderly)
    (hcurrent : s.Current) (hstep : Step s a s')
    (hreturned : s'.returned =
      s.returned ++ [⟨.update id (some name) enabled, true, before, after⟩]) :
    s'.Knows id (fun server => server.name = name) ∧
      Names id (· = name) s'.published.length s'.store s'.stream := by
  obtain ⟨h, outcome, ha, hheld, hturn⟩ := returned_step hstep hreturned
  obtain ⟨server, hphase, rfl, hname, hfree, hstore⟩ :=
    update_returns (hs.fits h hheld) hturn hreturned
  have hknows : s.Knows server.id fun server => server.name = name := by
    refine (hcurrent.knows ⟨h, hheld, by rw [hphase]; rfl⟩).mono ?_
    rintro _ rfl
    exact hname name rfl
  have hspares : Spares server.id (fun server => server.name = name) s a :=
    spares_of_phase hheld fun name' enabled' heq => by cases hphase.symm.trans heq
  refine ⟨hknows.step hstep hspares, ?_, ?_, ?_⟩
  · rw [stream_free hfree]
  · intro snapshot hget
    rw [hstore, Store.get_rename, if_pos rfl] at hget
    obtain ⟨old, _, rfl⟩ := Option.map_eq_some_iff.mp hget
    exact hname name rfl
  · intro e he
    rw [stream_free hfree, List.drop_length] at he
    cases he

/-- What the run rule carries. -/
structure Sound (s : Coordinator F) : Prop where
  agrees : Agrees s.store s.stream
  orderly : s.Orderly
  current : s.Current

theorem Sound.step (hs : s.Sound) (a : Action F) : (s.step a).Sound :=
  ⟨agrees_step hs.agrees (step_step s a), hs.orderly.step (step_step s a),
    hs.current.step (step_step s a)⟩

theorem sound_initial (tables : Tables F) : (initial tables).Sound where
  agrees := agrees_empty
  orderly := orderly_initial tables
  current := current_free rfl

theorem sound_run (tables : Tables F) (as : List (Action F)) :
    (run Coordinator.step (initial tables) as).Sound :=
  run_invariant (fun _ a hs => hs.step a) (sound_initial tables) as

/-- What it carries about one server: from some point on, its name meets `p` wherever it is known,
stored or published. -/
structure Known (id : Int) (p : String → Prop) (start : Nat) (s : Coordinator F) : Prop where
  sound : s.Sound
  knows : s.Knows id fun server => p server.name
  names : Names id p start s.store s.stream

/-- A step that spares the server's name keeps to it in every snapshot and event. -/
theorem Known.step {p : String → Prop} {start : Nat} (hs : s.Known id p start)
    (hspares : Spares id (fun server => p server.name) s a) : (s.step a).Known id p start := by
  refine ⟨hs.sound.step a, hs.knows.step (step_step s a) hspares, ?_⟩
  apply hs.names.move (step_moves hs.sound.orderly.keyed (step_step s a)) hs.sound.orderly.keyed
  rintro server ⟨h, hheld, hserver⟩ hid
  exact hs.knows.2 h server hheld hserver hid

/-- What the stream says of later events, the events published say. -/
theorem Known.published {p : String → Prop} {start : Nat} (hs : s.Known id p start) :
    ∀ e ∈ s.published.drop start, e.serverID = id → p e.snapshot.serverName := by
  intro e he
  apply hs.names.later e
  rw [stream, List.drop_append]
  exact List.mem_append_left _ he

/-- The name stays through the run. -/
theorem Sound.renamed (hs : s.Sound) {enabled : Option Bool} {before after : View F}
    (hreturned : (s.step a).returned =
      s.returned ++ [⟨.update id (some name) enabled, true, before, after⟩])
    {bs : List (Action F)} (hguard : Guarded Coordinator.step (KeepsName id name) (s.step a) bs) :
    let s' := run Coordinator.step (s.step a) bs
    (∀ snapshot, s'.store.get id = some snapshot → snapshot.serverName = name) ∧
      ∀ e ∈ s'.published.drop (s.step a).published.length,
        e.serverID = id → e.snapshot.serverName = name := by
  intro s'
  obtain ⟨hknows, hnames⟩ := renamed_step hs.orderly hs.current (step_step s a) hreturned
  have hknown : s'.Known id (· = name) (s.step a).published.length :=
    hguard.invariant (fun _ _ hok hu => hu.step hok.spares) ⟨hs.step a, hknows, hnames⟩
  exact ⟨hknown.names.stored, hknown.published⟩

/-- **Published events and the live store agree** in every state of every run: under any order of
the steps, any clock readings and any failing statements. What the store has of a server is what the
last event about it says, but for a name that was changed since. -/
theorem events_agree (tables : Tables F) (as : List (Action F)) :
    (run Coordinator.step (initial tables) as).Faithful := by
  have hs := sound_run tables as
  generalize run Coordinator.step (initial tables) as = s at hs
  refine ⟨hs.agrees, ?_, ?_, hs.orderly.returned, ?_, ?_⟩
  · intro hfree
    rw [← stream_free hfree]
    exact hs.agrees.last
  · intro before middle after a b heq
    have hstream : s.stream = before ++ a :: middle ++ b :: (after ++ s.pending) := by
      rw [stream, heq, List.append_assoc, List.cons_append]
    exact hs.agrees.between hstream
  · intro a op before after hreturned
    obtain ⟨h, outcome, _, hheld, hturn⟩ := returned_step (step_step s a) hreturned
    exact (failed_returns (hs.orderly.fits h hheld) hturn hreturned).2.2
  · intro a id name enabled before after bs hreturned hguard
    exact hs.renamed hreturned hguard

end Runs

end Coordinator

end TinyProbe.Live
