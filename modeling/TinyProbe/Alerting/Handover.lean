import TinyProbe.Alerting.Queue

/-!
# No final state is lost or overtaken

What an overflowing queue does to the order of evaluations. A callback of `scheduleLatest` holds the
snapshot it has read while newer ones are published, so it can bring an older snapshot into the
queue behind a newer one; and a `Submit` that overflows after the callback has sent, but before it
has left the pending set, is not made up for by anyone (`lost_not_keepsUp`).

In every run without these two steps evaluations never go back, and a quiescent state has evaluated
the last snapshot published of every server (`keepsUp_of_guarded`). The invariant has three parts:
a server is pending exactly while one callback of it is live (`Timers`); everything under way was
published, with the stored snapshot as its last (`Sources`); and the stream is in order, with what
was submitted last of a server in it or to be made up for (`Ordered`).
-/

namespace TinyProbe.Alerting.Queue

open TinyProbe.Run TinyProbe.Live TinyProbe.Stream

variable {F : Type}

/-! ## The timers -/

section Timers

/-- The server is pending: the callback has not taken it out yet. -/
def Phase.live : Phase F → Bool
  | .retry => false
  | _ => true

/-- The callback will still read the latest snapshot, or hand over to one that will. -/
def Phase.active : Phase F → Bool
  | .sent _ => false
  | _ => true

/-- The queue was full for the callback, which has given its server up and calls `scheduleLatest`
next. -/
def Phase.retries : Phase F → Bool
  | .retry => true
  | _ => false

/-- The number of the snapshot a callback has sent. -/
def Phase.sentVersion : Phase F → Option Nat
  | .sent version => some version
  | _ => none

def State.callback? (q : State F) (i : Nat) : Option (Callback F) := AList.lookup i q.callbacks

/-- A server is pending exactly while one callback of it is live. -/
structure Timers (q : State F) : Prop where
  fresh : ∀ i c, q.callback? i = some c → i < q.nextCallback
  pending : ∀ s, q.pending s = true ↔ ∃ i c, q.callback? i = some c ∧ c.server = s ∧
    c.phase.live = true
  unique : ∀ i j c c', q.callback? i = some c → q.callback? j = some c' → c.phase.live = true →
    c'.phase.live = true → c.server = c'.server → i = j

variable {q : State F} {i : Nat} {s : Int} {phase : Phase F}

/-- Entering a phase is about one callback. -/
theorem callback?_enter (j : Nat) :
    (q.enter i s phase).callback? j = if j = i then some ⟨s, phase⟩ else q.callback? j :=
  Map.lookup_insert _ _ _ _

/-- A callback that has returned is forgotten. -/
theorem callback?_forget (j : Nat) :
    (q.forget i).callback? j = if j = i then none else q.callback? j :=
  Map.lookup_erase _ _ _

private theorem pending_release (x : Int) :
    (q.release s).pending x = if x = s then false else q.pending x :=
  Function.update_apply _ _ _ _

/-- A callback that is replaced by one as live, or as little live, of the same server. -/
theorem Timers.keep {q' : State F} {new : Option (Callback F)} (h : Timers q)
    (hi : q.callback? i = some ⟨s, phase⟩) (hnext : q'.nextCallback = q.nextCallback)
    (hcallback : ∀ j, q'.callback? j = if j = i then new else q.callback? j)
    (hpending' : q'.pending = q.pending)
    (hnew : ∀ x, (∃ c, new = some c ∧ c.server = x ∧ c.phase.live = true) ↔
      s = x ∧ phase.live = true) : Timers q' := by
  obtain ⟨hfresh, hpending, hunique⟩ := h
  have hserver : ∀ c, new = some c → c.phase.live = true → c.server = s ∧ phase.live = true :=
    fun c hc hl => ((hnew c.server).mp ⟨c, hc, rfl, hl⟩).imp_left Eq.symm
  refine ⟨fun j c hc => ?_, fun x => ?_, fun j k c c' hc hc' hl hl' hs => ?_⟩
  · rw [hcallback] at hc
    rw [hnext]
    grind
  · rw [hpending', hpending]
    simp only [hcallback]
    constructor
    · rintro ⟨j, c, hc, hx, hl⟩
      by_cases hj : j = i
      · subst hj
        cases hi.symm.trans hc
        obtain ⟨c', hc', hx', hl'⟩ := (hnew x).mpr ⟨hx, hl⟩
        exact ⟨j, c', (if_pos rfl).trans hc', hx', hl'⟩
      · exact ⟨j, c, (if_neg hj).trans hc, hx, hl⟩
    · rintro ⟨j, c, hc, hx, hl⟩
      split at hc
      next => exact ⟨i, ⟨s, phase⟩, hi, (hnew x).mp ⟨c, hc, hx, hl⟩⟩
      next => exact ⟨j, c, hc, hx, hl⟩
  · rw [hcallback] at hc hc'
    grind

/-- A live callback that takes its server out, and then is not live. -/
theorem Timers.drop {q' : State F} {new : Option (Callback F)} (h : Timers q)
    (hi : q.callback? i = some ⟨s, phase⟩) (hlive : phase.live = true)
    (hnext : q'.nextCallback = q.nextCallback)
    (hcallback : ∀ j, q'.callback? j = if j = i then new else q.callback? j)
    (hpending' : ∀ x, q'.pending x = if x = s then false else q.pending x)
    (hnew : ∀ c, new = some c → c.phase.live = false) : Timers q' := by
  obtain ⟨hfresh, hpending, hunique⟩ := h
  refine ⟨fun j c hc => ?_, fun x => ?_, fun j k c c' hc hc' hl hl' hs => ?_⟩
  · rw [hcallback] at hc
    rw [hnext]
    grind
  · rw [hpending']
    simp only [hcallback]
    grind
  · rw [hcallback] at hc hc'
    grind

/-- A live callback stays the one that its server waits for. -/
theorem Timers.enter (h : Timers q) (hi : q.callback? i = some ⟨s, phase⟩)
    (hlive : phase.live = true) {phase' : Phase F} (hlive' : phase'.live = true) :
    Timers (q.enter i s phase') := by
  refine h.keep hi rfl callback?_enter rfl fun x => ?_
  simp only [Option.some.injEq, exists_eq_left', hlive, hlive', and_true]

/-- A callback that is done releases its server. -/
theorem Timers.retire (h : Timers q) (hi : q.callback? i = some ⟨s, phase⟩)
    (hlive : phase.live = true) : Timers ((q.release s).forget i) :=
  h.drop hi hlive rfl callback?_forget pending_release fun c hc => by cases hc

/-- So does one that finds the queue full, and it has the server scheduled again. -/
theorem Timers.leave (h : Timers q) (hi : q.callback? i = some ⟨s, phase⟩)
    (hlive : phase.live = true) : Timers ((q.release s).enter i s .retry) := by
  refine h.drop hi hlive rfl callback?_enter pending_release fun c hc => ?_
  cases hc
  rfl

/-- A callback that has released its server may be forgotten. -/
theorem Timers.forget (h : Timers q) (hi : q.callback? i = some ⟨s, .retry⟩) :
    Timers (q.forget i) := by
  refine h.keep hi rfl callback?_forget rfl fun x => iff_of_false ?_ fun hs => ?_
  · rintro ⟨c, hc, _⟩
    cases hc
  · cases hs.2

/-- `scheduleLatest` does nothing, or arms a timer of a server that was not pending. -/
theorem scheduleLatest_cases (q : State F) (s : Int) :
    (q.scheduleLatest s = q ∧ (s < 1 ∨ q.pending s = true)) ∨
      (1 ≤ s ∧ q.pending s = false ∧ q.scheduleLatest s = q.arm s) := by
  unfold State.scheduleLatest
  split
  next hs => exact Or.inl ⟨rfl, Or.inl hs⟩
  next hs =>
    split
    next hp => exact Or.inl ⟨rfl, Or.inr hp⟩
    next hp => exact Or.inr ⟨by omega, by simpa using hp, rfl⟩

/-- A timer is armed under a new number. -/
theorem callback?_arm (j : Nat) :
    (q.arm s).callback? j = if j = q.nextCallback then some ⟨s, .armed⟩ else q.callback? j :=
  Map.lookup_insert _ _ _ _

/-- A server that nobody waits for gets a timer. -/
theorem Timers.arm (h : Timers q) (hp : q.pending s = false) : Timers (q.arm s) := by
  obtain ⟨hfresh, hpending, hunique⟩ := h
  have harmed : (Phase.armed : Phase F).live = true := rfl
  refine ⟨fun j c hc => ?_, fun x => ?_, fun j k c c' hc hc' hl hl' hs => ?_⟩
  · change j < q.nextCallback + 1
    rw [callback?_arm] at hc
    grind
  · change Function.update q.pending s true x = true ↔ _
    simp only [Function.update_apply, callback?_arm]
    constructor
    · intro hx
      by_cases hxs : x = s
      · exact ⟨q.nextCallback, ⟨s, .armed⟩, if_pos rfl, hxs.symm, rfl⟩
      · rw [if_neg hxs, hpending] at hx
        grind
    · grind
  · rw [callback?_arm] at hc hc'
    grind

/-- `scheduleLatest` arms a timer, unless there is one. -/
theorem Timers.schedule (h : Timers q) (s : Int) : Timers (q.scheduleLatest s) := by
  rcases scheduleLatest_cases q s with ⟨heq, _⟩ | ⟨_, hp, heq⟩
  · rw [heq]
    exact h
  · rw [heq]
    exact h.arm hp

/-- The timers depend on the callbacks, the pending servers and the numbers. -/
theorem Timers.congr {q' : State F} (h : Timers q) (hc : q'.callbacks = q.callbacks)
    (hp : q'.pending = q.pending) (hn : q'.nextCallback = q.nextCallback) : Timers q' := by
  have hcallback : ∀ j, q'.callback? j = q.callback? j := fun j => by
    rw [State.callback?, hc, State.callback?]
  refine ⟨fun j c hc => ?_, fun x => ?_, fun j k c c' hc hc' => ?_⟩
  · rw [hn]
    exact h.fresh j c (hcallback j ▸ hc)
  · simp only [hp, hcallback]
    exact h.pending x
  · exact h.unique j k c c' (hcallback j ▸ hc) (hcallback k ▸ hc')

end Timers

/-! ## Where snapshots come from -/

/-- The last number of a server that was submitted. -/
def State.submitted (q : State F) (s : Int) : Nat := latest Entry.server Entry.version s q.published

/-- The last number of a server that has entered the queue. -/
def State.entered (q : State F) (s : Int) : Nat := latest Entry.server Entry.version s q.stream

/-- The entry is of a publication that was made, and of the stored snapshot when it is the last. -/
def State.Made (q : State F) (e : Entry F) : Prop :=
  0 < e.version ∧ e.version ≤ q.version e.server ∧
    (e.version = q.version e.server → q.store.get e.server = some e.event.snapshot)

/-- Everything that is under way was published, and what the coordinator has still to submit is
newer than what it has. -/
structure Sources (q : State F) : Prop where
  keyed : q.store.Keyed
  positive : ∀ s, 0 < q.version s → 1 ≤ s
  stored : ∀ s, (q.store.get s).isSome = true ↔ 0 < q.version s
  made : ∀ e, e ∈ q.published ∨ e ∈ q.publishing ∨ e ∈ q.stream → q.Made e
  reads : ∀ i s got v, q.callback? i = some ⟨s, .read got v⟩ → ∃ snapshot, got = some snapshot ∧
    snapshot.serverID = s ∧ q.Made ⟨⟨.updated, snapshot⟩, v⟩
  once : (q.publishing.map Entry.server).Nodup
  newest : ∀ e ∈ q.publishing, e.version = q.version e.server ∧ q.submitted e.server < e.version
  settled : ∀ s, (∀ e ∈ q.publishing, e.server ≠ s) → q.submitted s = q.version s
  known : ∀ i c, q.callback? i = some c → 0 < q.version c.server
  dropped : ∀ s, q.dropped = some s → 0 < q.version s

section Sources

variable {q : State F}

/-- What was submitted was published before. -/
theorem Sources.submitted_le (h : Sources q) (s : Int) : q.submitted s ≤ q.version s :=
  latest_le fun e he hs => hs ▸ (h.made e (Or.inl he)).2.1

/-- What has entered the stream was published before. -/
theorem Sources.entered_le (h : Sources q) (s : Int) : q.entered s ≤ q.version s :=
  latest_le fun e he hs => hs ▸ (h.made e (Or.inr (Or.inr he))).2.1

/-- A new round of publications. -/
theorem Sources.publish (h : Sources q) (hidle : q.publishing = []) {store : Store F}
    {events : List (Live.Event F)} (hkeyed : store.Keyed)
    (hids : ∀ e ∈ events, 1 ≤ e.snapshot.serverID)
    (hnodup : (events.map (·.snapshot.serverID)).Nodup)
    (hnew : ∀ e ∈ events, store.get e.snapshot.serverID = some e.snapshot)
    (hold : ∀ s, s ∉ events.map (·.snapshot.serverID) → store.get s = q.store.get s) :
    Sources (q.publish store events) := by
  have hversion : ∀ s, (q.publish store events).version s =
      if s ∈ events.map (·.snapshot.serverID) then q.version s + 1 else q.version s := fun _ => rfl
  have hle : ∀ s, q.version s ≤ (q.publish store events).version s := fun s => by
    rw [hversion]
    split <;> omega
  have hmade : ∀ e, q.Made e → (q.publish store events).Made e := by
    rintro e ⟨hpos, hbound, hcurrent⟩
    refine ⟨hpos, Nat.le_trans hbound (hle _), fun heq => ?_⟩
    rw [hversion] at heq
    split at heq
    next => omega
    next hs => exact (hold _ hs).trans (hcurrent heq)
  refine
    { keyed := hkeyed
      positive := fun s hs => ?_
      stored := fun s => ?_
      made := fun e he => ?_
      reads := fun i s got v hi => ?_
      once := ?_
      newest := fun e he => ?_
      settled := fun s hs => ?_
      known := fun i c hi => Nat.lt_of_lt_of_le (h.known i c hi) (hle _)
      dropped := fun s hs => Nat.lt_of_lt_of_le (h.dropped s hs) (hle _) }
  · rw [hversion] at hs
    split at hs
    next hmem =>
      obtain ⟨e, he, rfl⟩ := List.mem_map.mp hmem
      exact hids e he
    next => exact h.positive s hs
  · rw [hversion]
    split
    next hmem =>
      obtain ⟨e, he, rfl⟩ := List.mem_map.mp hmem
      refine iff_of_true ?_ (Nat.succ_pos _)
      rw [show (q.publish store events).store = store from rfl, hnew e he, Option.isSome_some]
    next hmem =>
      rw [show (q.publish store events).store = store from rfl, hold s hmem]
      exact h.stored s
  · rcases he with he | he | he
    · exact hmade e (h.made e (Or.inl he))
    · obtain ⟨event, hevent, rfl⟩ := List.mem_map.mp he
      have hmem : event.snapshot.serverID ∈ events.map (·.snapshot.serverID) :=
        List.mem_map.mpr ⟨event, hevent, rfl⟩
      refine ⟨Nat.succ_pos _, ?_, fun _ => hnew event hevent⟩
      exact Nat.le_of_eq (if_pos hmem).symm
    · exact hmade e (h.made e (Or.inr (Or.inr he)))
  · obtain ⟨snapshot, hgot, hserver, hm⟩ := h.reads i s got v hi
    exact ⟨snapshot, hgot, hserver, hmade _ hm⟩
  · have : (q.publish store events).publishing.map Entry.server =
        events.map (·.snapshot.serverID) := List.map_map
    rw [this]
    exact hnodup
  · obtain ⟨event, hevent, rfl⟩ := List.mem_map.mp he
    have hmem : event.snapshot.serverID ∈ events.map (·.snapshot.serverID) :=
      List.mem_map.mpr ⟨event, hevent, rfl⟩
    exact ⟨(if_pos hmem).symm, Nat.lt_succ_of_le (h.submitted_le _)⟩
  · have hmem : s ∉ events.map (·.snapshot.serverID) := fun hmem => by
      obtain ⟨event, hevent, hid⟩ := List.mem_map.mp hmem
      exact hs _ (List.mem_map.mpr ⟨event, hevent, rfl⟩) hid
    rw [hversion, if_neg hmem]
    exact h.settled s fun e he => absurd he (by rw [hidle]; exact List.not_mem_nil)

/-- Steps that publish nothing: what they add to the stream was published, and so was what the
callbacks have read. -/
theorem Sources.update {q' : State F} (h : Sources q) (hstore : q'.store = q.store)
    (hversion : q'.version = q.version) (hpublishing : q'.publishing = q.publishing)
    (hpublished : q'.published = q.published) (hstream : ∀ e ∈ q'.stream, e ∈ q.stream ∨ q.Made e)
    (hcallback : ∀ i c, q'.callback? i = some c → q.callback? i = some c ∨
      (0 < q.version c.server ∧ ∀ got v, c.phase = .read got v → ∃ snapshot, got = some snapshot ∧
        snapshot.serverID = c.server ∧ q.Made ⟨⟨.updated, snapshot⟩, v⟩))
    (hdropped : ∀ s, q'.dropped = some s → 0 < q.version s) : Sources q' := by
  have hmade : ∀ e, q.Made e → q'.Made e := fun e he => by
    unfold State.Made
    rw [hstore, hversion]
    exact he
  have hsubmitted : ∀ s, q'.submitted s = q.submitted s := fun s => by
    rw [State.submitted, hpublished, State.submitted]
  refine
    { keyed := hstore ▸ h.keyed
      positive := hversion ▸ h.positive
      stored := by rw [hstore, hversion]; exact h.stored
      made := fun e he => hmade e ?_
      reads := fun i s got v hi => ?_
      once := hpublishing ▸ h.once
      newest := by simp only [hpublishing, hversion, hsubmitted]; exact h.newest
      settled := by simp only [hpublishing, hversion, hsubmitted]; exact h.settled
      known := fun i c hi => ?_
      dropped := fun s hs => by rw [hversion]; exact hdropped s hs }
  · rw [hpublished, hpublishing] at he
    rcases he with he | he | he
    · exact h.made e (Or.inl he)
    · exact h.made e (Or.inr (Or.inl he))
    · exact (hstream e he).elim (fun he => h.made e (Or.inr (Or.inr he))) id
  · obtain ⟨snapshot, hgot, hserver, hm⟩ := (hcallback i _ hi).elim (h.reads i s got v)
      fun hc => hc.2 got v rfl
    exact ⟨snapshot, hgot, hserver, hmade _ hm⟩
  · rw [hversion]
    exact (hcallback i c hi).elim (h.known i c) And.left

/-- A report gives the snapshot of its server the next version. -/
theorem Sources.accept (h : Sources q) (hidle : q.publishing = []) {server : Servers.Server}
    (hid : 1 ≤ server.id) (report : Protocol.AgentReport F) (t : Time) (ip : String) :
    Sources (q.accept server report t ip) := by
  refine h.publish hidle (h.keyed.upsertFrom server report t ip) ?_ ?_ ?_ ?_
  · intro e he
    rw [List.mem_singleton.mp he]
    exact hid
  · exact List.nodup_singleton _
  · intro e he
    rw [List.mem_singleton.mp he]
    exact (Store.get_upsertFrom q.store server report t ip _).trans (if_pos rfl)
  · intro s hs
    exact (Store.get_upsertFrom q.store server report t ip s).trans
      (if_neg fun heq => hs (List.mem_singleton.mpr heq))

/-- The changed snapshots come out in the order of their servers. -/
theorem Sources.sweep (h : Sources q) (hidle : q.publishing = []) {cutoff : Time}
    {order : List Int}
    (hperm : order.Perm ((q.store.markOffline cutoff).1.map Snapshot.serverID)) :
    Sources (q.sweep cutoff order) := by
  refine h.publish hidle (h.keyed.markOffline cutoff) ?_ ?_ ?_ ?_
  · intro e he
    obtain ⟨snapshot, hmem, rfl⟩ := List.mem_map.mp he
    obtain ⟨old, hold, _, _⟩ := (Store.mem_markOffline h.keyed).mp (mem_changedIn hmem)
    refine h.positive _ ((h.stored _).mp ?_)
    rw [hold, Option.isSome_some]
  · rw [serverID_swept hperm]
    exact hperm.nodup_iff.mpr (Store.nodup_markOffline h.keyed cutoff)
  · intro e he
    obtain ⟨snapshot, hmem, rfl⟩ := List.mem_map.mp he
    exact Store.get_of_changed h.keyed (mem_changedIn hmem)
  · intro s hs
    rw [serverID_swept hperm] at hs
    exact Store.get_of_not_changed h.keyed fun hmem => hs (hperm.mem_iff.mpr hmem)

/-- The event `Submit` takes over was published last of its server, and leaves the list. -/
theorem Sources.submit {q' : State F} (h : Sources q) {e : Entry F} {publishing : List (Entry F)}
    (hhead : q.publishing = e :: publishing) (hstore : q'.store = q.store)
    (hversion : q'.version = q.version) (hpublishing : q'.publishing = publishing)
    (hpublished : q'.published = q.published ++ [e])
    (hstream : ∀ x ∈ q'.stream, x ∈ q.stream ∨ x = e) (hcallbacks : q'.callbacks = q.callbacks)
    (hdropped : ∀ s, q'.dropped = some s → s = e.server) : Sources q' := by
  have hmade : ∀ x, q.Made x → q'.Made x := fun x hx => by
    unfold State.Made
    rw [hstore, hversion]
    exact hx
  have he : e ∈ q.publishing := hhead ▸ List.mem_cons_self
  have hcallback : ∀ i, q'.callback? i = q.callback? i := fun i => by
    rw [State.callback?, hcallbacks, State.callback?]
  have hsubmitted : ∀ s, q'.submitted s = if e.server = s then e.version else q.submitted s :=
    fun s => by rw [State.submitted, hpublished, latest_snoc, State.submitted]
  have honce := h.once
  rw [hhead, List.map_cons, List.nodup_cons] at honce
  refine
    { keyed := hstore ▸ h.keyed
      positive := hversion ▸ h.positive
      stored := by rw [hstore, hversion]; exact h.stored
      made := fun x hx => hmade x ?_
      reads := fun i s got v hi => ?_
      once := hpublishing ▸ honce.2
      newest := fun x hx => ?_
      settled := fun s hs => ?_
      known := fun i c hi => by rw [hversion]; exact h.known i c (hcallback i ▸ hi)
      dropped := fun s hs => by
        have hmade := h.made e (Or.inr (Or.inl he))
        rw [hversion, hdropped s hs]
        exact hmade.1.trans_le hmade.2.1 }
  · rcases hx with hx | hx | hx
    · rw [hpublished] at hx
      rcases List.mem_append.mp hx with hx | hx
      · exact h.made x (Or.inl hx)
      · rw [List.mem_singleton.mp hx]
        exact h.made e (Or.inr (Or.inl he))
    · rw [hpublishing] at hx
      exact h.made x (Or.inr (Or.inl (hhead ▸ List.mem_cons_of_mem _ hx)))
    · rcases hstream x hx with hx | rfl
      · exact h.made x (Or.inr (Or.inr hx))
      · exact h.made x (Or.inr (Or.inl he))
  · obtain ⟨snapshot, hgot, hserver, hm⟩ := h.reads i s got v (hcallback i ▸ hi)
    exact ⟨snapshot, hgot, hserver, hmade _ hm⟩
  · rw [hpublishing] at hx
    have hne : e.server ≠ x.server := fun heq =>
      honce.1 (heq ▸ List.mem_map_of_mem hx)
    rw [hversion, hsubmitted, if_neg hne]
    exact h.newest x (hhead ▸ List.mem_cons_of_mem _ hx)
  · rw [hpublishing] at hs
    rw [hversion, hsubmitted]
    split
    next heq => rw [← heq]; exact (h.newest e he).1
    next hne =>
      refine h.settled s fun x hx => ?_
      rw [hhead] at hx
      rcases List.mem_cons.mp hx with rfl | hx
      · exact hne
      · exact hs x hx

end Sources

/-! ## The order of the stream -/

/-- The stream is in order, and what was submitted last of a server has entered it or will be made
up for. -/
structure Ordered (q : State F) : Prop where
  ascending : Ascending Entry.server Entry.version q.stream
  served : ∀ s, q.submitted s ≤ q.entered s ∨ q.dropped = some s ∨
    ∃ i c, q.callback? i = some c ∧ c.server = s ∧ c.phase.active = true
  reader : ∀ i s got v, q.callback? i = some ⟨s, .read got v⟩ → v < q.submitted s ∨ q.entered s ≤ v
  sent : ∀ i s v, q.callback? i = some ⟨s, .sent v⟩ → v ≤ q.entered s

/-- A call of `scheduleLatest` that finds the server pending does not come behind a callback that
has already sent a snapshot older than the last one submitted. -/
def State.Coalesces (q : State F) (s : Int) : Prop :=
  q.pending s = true → ∀ e ∈ q.callbacks.entries, e.2.server = s →
    ∀ v ∈ e.2.phase.sentVersion, q.submitted s ≤ v

/-- A pending callback sends nothing older than what was last submitted. -/
theorem State.Coalesces.le {q : State F} {s : Int} (h : q.Coalesces s) (hp : q.pending s = true)
    {i v : Nat} (hi : q.callback? i = some ⟨s, .sent v⟩) : q.submitted s ≤ v :=
  h hp ⟨i, _⟩ (Map.mem_entries_iff.mpr hi) rfl v rfl

section Ordered

variable {q : State F}

/-- The event `Submit` takes over enters the stream. -/
theorem Ordered.enqueue {q' : State F} (h : Ordered q) (hs : Sources q) {e : Entry F}
    (he : e ∈ q.publishing) (hpublished : q'.published = q.published ++ [e])
    (hstream : q'.stream = q.stream ++ [e]) (hcallbacks : q'.callbacks = q.callbacks)
    (hdropped : q'.dropped = q.dropped) : Ordered q' := by
  have hcallback : ∀ i, q'.callback? i = q.callback? i := fun i => by
    rw [State.callback?, hcallbacks, State.callback?]
  have hsubmitted : ∀ s, q'.submitted s = if e.server = s then e.version else q.submitted s :=
    fun s => by rw [State.submitted, hpublished, latest_snoc, State.submitted]
  have hentered : ∀ s, q'.entered s = if e.server = s then e.version else q.entered s :=
    fun s => by rw [State.entered, hstream, latest_snoc, State.entered]
  have hle : q.entered e.server ≤ e.version := by
    rw [(hs.newest e he).1]
    exact hs.entered_le e.server
  refine ⟨?_, fun s => ?_, fun i s got v hi => ?_, fun i s v hi => ?_⟩
  · rw [hstream]
    exact h.ascending.snoc hle
  · have := h.served s
    simp only [hsubmitted, hentered, hcallback, hdropped]
    grind
  · rw [hcallback] at hi
    have := h.reader i s got v hi
    rw [hsubmitted, hentered]
    grind
  · rw [hcallback] at hi
    have := h.sent i s v hi
    rw [hentered]
    grind

/-- The event `Submit` takes over finds the queue full. -/
theorem Ordered.drop {q' : State F} (h : Ordered q) (hs : Sources q) {e : Entry F}
    (he : e ∈ q.publishing) (hnone : q.dropped = none)
    (hpublished : q'.published = q.published ++ [e])
    (hstream : q'.stream = q.stream) (hcallbacks : q'.callbacks = q.callbacks)
    (hdropped : q'.dropped = some e.server) : Ordered q' := by
  have hcallback : ∀ i, q'.callback? i = q.callback? i := fun i => by
    rw [State.callback?, hcallbacks, State.callback?]
  have hsubmitted : ∀ s, q'.submitted s = if e.server = s then e.version else q.submitted s :=
    fun s => by rw [State.submitted, hpublished, latest_snoc, State.submitted]
  have hentered : ∀ s, q'.entered s = q.entered s :=
    fun s => by rw [State.entered, hstream, State.entered]
  have hnew := (hs.newest e he).2
  refine ⟨hstream ▸ h.ascending, fun s => ?_, fun i s got v hi => ?_, fun i s v hi => ?_⟩
  · have := h.served s
    simp only [hsubmitted, hentered, hcallback, hdropped]
    grind
  · rw [hcallback] at hi
    have := h.reader i s got v hi
    rw [hsubmitted, hentered]
    grind
  · rw [hcallback] at hi
    rw [hentered]
    exact h.sent i s v hi

/-- Steps that submit nothing and send nothing. -/
theorem Ordered.update {q' : State F} (h : Ordered q) (hpublished : q'.published = q.published)
    (hstream : q'.stream = q.stream)
    (hcallback : ∀ i c, q'.callback? i = some c → q.callback? i = some c ∨
      ((∀ got v, c.phase = .read got v → q.entered c.server ≤ v) ∧
        ∀ v, c.phase = .sent v → v ≤ q.entered c.server))
    (hserved : ∀ s, (q.dropped = some s ∨
        ∃ i c, q.callback? i = some c ∧ c.server = s ∧ c.phase.active = true) →
      q.submitted s ≤ q.entered s ∨ q'.dropped = some s ∨
        ∃ i c, q'.callback? i = some c ∧ c.server = s ∧ c.phase.active = true) : Ordered q' := by
  have hsubmitted : ∀ s, q'.submitted s = q.submitted s := fun s => by
    rw [State.submitted, hpublished, State.submitted]
  have hentered : ∀ s, q'.entered s = q.entered s := fun s => by
    rw [State.entered, hstream, State.entered]
  refine ⟨hstream ▸ h.ascending, fun s => ?_, fun i s got v hi => ?_, fun i s v hi => ?_⟩
  · rw [hsubmitted, hentered]
    exact (h.served s).elim Or.inl (hserved s)
  · rw [hsubmitted, hentered]
    exact (hcallback i _ hi).elim (h.reader i s got v) fun hc => Or.inr (hc.1 got v rfl)
  · rw [hentered]
    exact (hcallback i _ hi).elim (h.sent i s v) fun hc => hc.2 v rfl

/-- Scheduling leaves the callbacks there are. -/
theorem callback?_schedule (ht : Timers q) {i : Nat} {c : Callback F}
    (hi : q.callback? i = some c) (s : Int) : (q.scheduleLatest s).callback? i = some c := by
  rcases scheduleLatest_cases q s with ⟨heq, _⟩ | ⟨_, _, heq⟩
  · rw [heq]
    exact hi
  · rw [heq, callback?_arm, if_neg (Nat.ne_of_lt (ht.fresh i c hi))]
    exact hi

private theorem callback?_of_schedule {i : Nat} {c : Callback F} {s : Int}
    (hi : (q.scheduleLatest s).callback? i = some c) :
    q.callback? i = some c ∨ c = ⟨s, .armed⟩ := by
  rcases scheduleLatest_cases q s with ⟨heq, _⟩ | ⟨_, _, heq⟩
  · exact Or.inl (heq ▸ hi)
  · rw [heq, callback?_arm] at hi
    split at hi
    next => exact Or.inr (Option.some.inj hi).symm
    next => exact Or.inl hi

/-- After `scheduleLatest` a callback will read the latest snapshot, or none needs to. -/
theorem served_schedule (ht : Timers q) {s : Int} (hs : 1 ≤ s) (hok : q.Coalesces s)
    (hsent : ∀ i v, q.callback? i = some ⟨s, .sent v⟩ → v ≤ q.entered s) :
    q.submitted s ≤ q.entered s ∨
      ∃ i c, (q.scheduleLatest s).callback? i = some c ∧ c.server = s ∧ c.phase.active = true := by
  cases hp : q.pending s with
  | false =>
    refine Or.inr ⟨q.nextCallback, ⟨s, .armed⟩, ?_, rfl, rfl⟩
    rw [State.scheduleLatest, if_neg (by omega), hp, if_neg Bool.false_ne_true, callback?_arm,
      if_pos rfl]
  | true =>
    obtain ⟨i, ⟨s', phase⟩, hi, rfl, hlive⟩ := (ht.pending s).mp hp
    cases phase with
    | sent v => exact Or.inl (Nat.le_trans (hok.le hp hi) (hsent i v hi))
    | retry => cases hlive
    | _ => exact Or.inr ⟨i, _, callback?_schedule ht hi s', rfl, rfl⟩

private theorem stream_schedule (s : Int) : (q.scheduleLatest s).stream = q.stream := by
  rcases scheduleLatest_cases q s with ⟨heq, _⟩ | ⟨_, _, heq⟩
  · rw [heq]
  · rw [heq]
    rfl

private theorem published_schedule (s : Int) : (q.scheduleLatest s).published = q.published := by
  rcases scheduleLatest_cases q s with ⟨heq, _⟩ | ⟨_, _, heq⟩
  · rw [heq]
  · rw [heq]
    rfl

private theorem dropped_schedule (s : Int) : (q.scheduleLatest s).dropped = q.dropped := by
  rcases scheduleLatest_cases q s with ⟨heq, _⟩ | ⟨_, _, heq⟩
  · rw [heq]
  · rw [heq]
    rfl

/-- `scheduleLatest` on behalf of a server: of a `Submit` that found the queue full, or of a
callback that did. -/
theorem Ordered.schedule {q₀ : State F} (h : Ordered q) (ht : Timers q₀) {s : Int} (hs : 1 ≤ s)
    (hpublished : q₀.published = q.published) (hstream : q₀.stream = q.stream)
    (hcallback : ∀ i c, q₀.callback? i = some c → q.callback? i = some c)
    (hothers : ∀ x, x ≠ s → (q.dropped = some x ∨
        ∃ i c, q.callback? i = some c ∧ c.server = x ∧ c.phase.active = true) →
      q₀.dropped = some x ∨
        ∃ i c, q₀.callback? i = some c ∧ c.server = x ∧ c.phase.active = true)
    (hok : q₀.Coalesces s) : Ordered (q₀.scheduleLatest s) := by
  have hsubmitted : q₀.submitted s = q.submitted s := by
    rw [State.submitted, hpublished, State.submitted]
  have hentered : q₀.entered s = q.entered s := by
    rw [State.entered, hstream, State.entered]
  refine h.update ((published_schedule s).trans hpublished) ((stream_schedule s).trans hstream)
    (fun i c hi => ?_) fun x hx => ?_
  · rcases callback?_of_schedule hi with hi | rfl
    · exact Or.inl (hcallback i c hi)
    · exact Or.inr ⟨(fun _ _ hph => nomatch hph), fun _ hph => nomatch hph⟩
  · by_cases hxs : x = s
    · subst hxs
      have := served_schedule ht hs hok fun i v hi => by
        rw [hentered]
        exact h.sent i x v (hcallback i _ hi)
      rw [hsubmitted, hentered] at this
      exact this.imp id Or.inr
    · rcases hothers x hxs hx with hd | ⟨i, c, hi, hserver, hactive⟩
      · exact Or.inr (Or.inl ((dropped_schedule s).trans hd))
      · exact Or.inr (Or.inr ⟨i, c, callback?_schedule ht hi s, hserver, hactive⟩)

/-- A call of `scheduleLatest` for the server is still to come: of a `Submit` that found the queue
full, or of a callback that did. -/
def State.Awaits (q : State F) (s : Int) : Prop :=
  q.dropped = some s ∨
    ∃ e ∈ q.callbacks.entries, e.2.server = s ∧ e.2.phase.retries = true

/-- A snapshot of the server may be sent: it is not older than the last one submitted, or nothing
newer has entered the stream and that last one is still to be made up for. -/
def State.Sendable (q : State F) (s : Int) (version : Nat) : Prop :=
  q.submitted s ≤ version ∨ q.entered s ≤ version ∧ q.Awaits s

/-- A server awaits its timer when its snapshot was dropped. -/
theorem State.Awaits.exists {s : Int} (h : q.Awaits s) :
    q.dropped = some s ∨ ∃ j, q.callback? j = some ⟨s, .retry⟩ := by
  refine h.imp id ?_
  rintro ⟨⟨j, s', phase⟩, he, rfl, hphase⟩
  cases phase with
  | retry => exact ⟨j, Map.mem_entries_iff.mp he⟩
  | _ => cases hphase

/-- A callback's event enters the stream. -/
theorem Ordered.send (h : Ordered q) (ht : Timers q) {i : Nat} {s : Int} {snapshot : Snapshot F}
    {v : Nat} (hi : q.callback? i = some ⟨s, .read (some snapshot) v⟩)
    (hserver : snapshot.serverID = s) (hok : q.Sendable s v) :
    Ordered (State.enter { q with queue := q.queue ++ [⟨⟨.updated, snapshot⟩, v⟩] } i s (.sent v)) := by
  subst hserver
  generalize hq' : State.enter { q with queue := q.queue ++ [⟨⟨.updated, snapshot⟩, v⟩] } i
    snapshot.serverID (.sent v) = q'
  have hcallback : ∀ j, q'.callback? j =
      if j = i then some ⟨snapshot.serverID, .sent v⟩ else q.callback? j := fun j => by
    rw [← hq', callback?_enter]
    rfl
  have hstream : q'.stream = q.stream ++ [⟨⟨.updated, snapshot⟩, v⟩] := by
    rw [← hq', State.stream, State.stream, List.append_assoc]
    rfl
  have hsubmitted : ∀ x, q'.submitted x = q.submitted x := fun x => by
    rw [← hq']
    rfl
  have hentered : ∀ x, q'.entered x = if snapshot.serverID = x then v else q.entered x :=
    fun x => by
      rw [State.entered, hstream, latest_snoc, State.entered]
      rfl
  have hdropped : q'.dropped = q.dropped := by
    rw [← hq']
    rfl
  have hle : q.entered snapshot.serverID ≤ v := by
    have := h.reader i _ _ v hi
    rcases hok with hok | hok
    · omega
    · exact hok.1
  have hunique : ∀ j c, q.callback? j = some c → c.server = snapshot.serverID →
      c.phase.live = true → j = i := fun j c hj hs hl => ht.unique j i c _ hj hi hl rfl hs
  refine ⟨?_, fun x => ?_, fun j x got w hj => ?_, fun j x w hj => ?_⟩
  · rw [hstream]
    exact h.ascending.snoc hle
  · simp only [hsubmitted, hentered, hcallback, hdropped]
    by_cases hx : snapshot.serverID = x
    · subst hx
      rw [if_pos rfl]
      rcases hok with hle | ⟨_, hawaits⟩
      · exact Or.inl hle
      · refine Or.inr (hawaits.exists.imp id ?_)
        rintro ⟨j, hj⟩
        refine ⟨j, ⟨snapshot.serverID, .retry⟩, ?_, rfl, rfl⟩
        rw [if_neg, hj]
        rintro rfl
        cases hj.symm.trans hi
    · rw [if_neg hx]
      refine (h.served x).imp id (Or.imp id ?_)
      rintro ⟨j, c, hj, hserver, hactive⟩
      refine ⟨j, c, ?_, hserver, hactive⟩
      rw [if_neg, hj]
      rintro rfl
      cases hj.symm.trans hi
      exact hx hserver
  · have hread := h.reader j x got w
    have hl : (Phase.read got w).live = true := rfl
    rw [hsubmitted, hentered]
    rw [hcallback] at hj
    grind
  · have hsent := h.sent j x w
    rw [hentered]
    rw [hcallback] at hj
    grind

end Ordered

/-! ## The step -/

/-- A callback may take its next step: it does not send a snapshot that is older than the last one
submitted of its server when that one has entered the stream or nothing is left to make up for it,
and it does not rely on another callback that has sent an older one. -/
def State.MayMove (q : State F) : Callback F → Prop
  | ⟨s, .read (some _) version⟩ =>
    q.queue.length < evaluationQueueCapacity → q.Sendable s version
  | ⟨s, .retry⟩ => q.Coalesces s
  | _ => True

/-- What a step must not do: bring an older snapshot into the queue behind a newer one, or count on
a callback that has sent an older one already. -/
def Ok (q : State F) : Action F → Prop
  | .accept server _ _ _ => 1 ≤ server.id
  | .schedule => ∀ s ∈ q.dropped, q.Coalesces s
  | .callback i => ∀ c ∈ q.callback? i, q.MayMove c
  | _ => True

instance (q : State F) (s : Int) : Decidable (q.Coalesces s) := inferInstanceAs (Decidable (_ → _))

instance (q : State F) (s : Int) : Decidable (q.Awaits s) := inferInstanceAs (Decidable (_ ∨ _))

instance (q : State F) (s : Int) (version : Nat) : Decidable (q.Sendable s version) :=
  inferInstanceAs (Decidable (_ ∨ _))

instance (q : State F) : DecidablePred q.MayMove
  | ⟨_, .read (some _) _⟩ => inferInstanceAs (Decidable (_ → _))
  | ⟨s, .retry⟩ => inferInstanceAs (Decidable (q.Coalesces s))
  | ⟨_, .armed⟩ => isTrue trivial
  | ⟨_, .read none _⟩ => isTrue trivial
  | ⟨_, .sent _⟩ => isTrue trivial
  | ⟨_, .failed⟩ => isTrue trivial

instance (q : State F) : DecidablePred (Ok q)
  | .accept _ _ _ _ => inferInstanceAs (Decidable (_ ≤ _))
  | .schedule => inferInstanceAs (Decidable (∀ s ∈ q.dropped, q.Coalesces s))
  | .callback i => inferInstanceAs (Decidable (∀ c ∈ q.callback? i, q.MayMove c))
  | .sweep _ _ => isTrue trivial
  | .submit => isTrue trivial
  | .dequeue => isTrue trivial

/-- What guarded runs keep. -/
structure Inv (q : State F) : Prop where
  timers : Timers q
  sources : Sources q
  ordered : Ordered q

section Step

variable {q : State F}

/-- A `Submit` queues its event, or drops it on a full queue. -/
theorem inv_submit (h : Inv q) : Inv q.submit := by
  unfold State.submit
  split
  next e publishing hdropped hhead =>
    have he : e ∈ q.publishing := hhead ▸ List.mem_cons_self
    simp only [State.send]
    split
    next q' hq' =>
      split at hq'
      next =>
        cases hq'
        have hstream : q.evaluated ++ (q.queue ++ [e]) = q.stream ++ [e] :=
          (List.append_assoc _ _ _).symm
        refine ⟨h.timers.congr rfl rfl rfl,
          h.sources.submit hhead rfl rfl rfl rfl (fun x hx => ?_) rfl fun s hs => ?_,
          h.ordered.enqueue h.sources he rfl hstream rfl rfl⟩
        · rw [State.stream, hstream] at hx
          exact (List.mem_append.mp hx).imp id List.mem_singleton.mp
        · rw [hdropped] at hs
          cases hs
      next => cases hq'
    next =>
      exact ⟨h.timers.congr rfl rfl rfl,
        h.sources.submit hhead rfl rfl rfl rfl (fun x hx => Or.inl hx) rfl
          fun s hs => (Option.some.inj hs).symm,
        h.ordered.drop h.sources he hdropped rfl rfl rfl rfl⟩
  next => exact h

/-- `scheduleLatest` on a state that has lost one claim on its server. -/
theorem inv_schedule (q₀ : State F) (h : Inv q) (ht : Timers q₀) {s : Int} (hs : 0 < q.version s)
    (hstore : q₀.store = q.store) (hversion : q₀.version = q.version)
    (hpublishing : q₀.publishing = q.publishing) (hpublished : q₀.published = q.published)
    (hstream : q₀.stream = q.stream)
    (hcallback : ∀ i c, q₀.callback? i = some c → q.callback? i = some c)
    (hdropped : ∀ x, q₀.dropped = some x → q.dropped = some x)
    (hothers : ∀ x, x ≠ s → (q.dropped = some x ∨
        ∃ i c, q.callback? i = some c ∧ c.server = x ∧ c.phase.active = true) →
      q₀.dropped = some x ∨
        ∃ i c, q₀.callback? i = some c ∧ c.server = x ∧ c.phase.active = true)
    (hok : q₀.Coalesces s) : Inv (q₀.scheduleLatest s) := by
  refine ⟨ht.schedule s, ?_, h.ordered.schedule ht (h.sources.positive s hs) hpublished hstream
    hcallback hothers hok⟩
  have hfields : (q₀.scheduleLatest s).store = q₀.store ∧
      (q₀.scheduleLatest s).version = q₀.version ∧
      (q₀.scheduleLatest s).publishing = q₀.publishing := by
    rcases scheduleLatest_cases q₀ s with ⟨heq, _⟩ | ⟨_, _, heq⟩
    · rw [heq]
      exact ⟨rfl, rfl, rfl⟩
    · rw [heq]
      exact ⟨rfl, rfl, rfl⟩
  refine h.sources.update (hfields.1.trans hstore) (hfields.2.1.trans hversion)
    (hfields.2.2.trans hpublishing) ((published_schedule s).trans hpublished)
    (fun e he => Or.inl ?_) (fun i c hi => ?_) fun x hx => ?_
  · rwa [stream_schedule, hstream] at he
  · rcases callback?_of_schedule hi with hi | rfl
    · exact Or.inl (hcallback i c hi)
    · exact Or.inr ⟨hs, fun _ _ hph => nomatch hph⟩
  · rw [dropped_schedule] at hx
    exact h.sources.dropped x (hdropped x hx)

/-- A callback's move from one phase to the next, without a send. -/
theorem inv_enter (q₀ : State F) (h : Inv q) {i : Nat} {s : Int} {phase phase' : Phase F}
    (hi : q.callback? i = some ⟨s, phase⟩) (ht : Timers (q₀.enter i s phase'))
    (hfields : q₀.store = q.store ∧ q₀.version = q.version ∧ q₀.publishing = q.publishing ∧
      q₀.published = q.published ∧ q₀.stream = q.stream ∧ q₀.callbacks = q.callbacks ∧
      q₀.dropped = q.dropped)
    (hactive : phase'.active = true)
    (hread : ∀ got v, phase' = .read got v → q.entered s ≤ v ∧ ∃ snapshot, got = some snapshot ∧
      snapshot.serverID = s ∧ q.Made ⟨⟨.updated, snapshot⟩, v⟩)
    (hsent : ∀ v, phase' ≠ .sent v) : Inv (q₀.enter i s phase') := by
  obtain ⟨hstore, hversion, hpublishing, hpublished, hstream, hcallbacks, hdropped⟩ := hfields
  have hcallback : ∀ j, (q₀.enter i s phase').callback? j =
      if j = i then some ⟨s, phase'⟩ else q.callback? j := fun j => by
    rw [callback?_enter, State.callback?, hcallbacks, State.callback?]
  refine ⟨ht, h.sources.update hstore hversion hpublishing hpublished
    (fun e he => Or.inl (hstream ▸ he)) (fun j c hj => ?_) fun x hx => ?_,
    h.ordered.update hpublished hstream (fun j c hj => ?_) fun x hx => ?_⟩
  · rw [hcallback] at hj
    split at hj
    next =>
      cases hj
      exact Or.inr ⟨(h.sources.known i _ hi :), fun got v hph => (hread got v hph).2⟩
    next => exact Or.inl hj
  · exact h.sources.dropped x (hdropped ▸ hx)
  · rw [hcallback] at hj
    split at hj
    next =>
      cases hj
      exact Or.inr ⟨fun got v hph => (hread got v hph).1, fun v hph => absurd hph (hsent v)⟩
    next => exact Or.inl hj
  · refine Or.inr (hx.imp (fun hx => hdropped.trans hx) ?_)
    rintro ⟨j, c, hj, hserver, hact⟩
    by_cases hji : j = i
    · rw [hji, hi] at hj
      cases hj
      exact ⟨i, ⟨s, phase'⟩, by rw [hcallback, if_pos rfl], hserver, hactive⟩
    · exact ⟨j, c, by rw [hcallback, if_neg hji]; exact hj, hserver, hact⟩

/-- A callback that has sent its snapshot returns. -/
theorem inv_retire (h : Inv q) {i : Nat} {s : Int} {v : Nat}
    (hi : q.callback? i = some ⟨s, .sent v⟩) : Inv ((q.release s).forget i) := by
  have hcallback : ∀ j, ((q.release s).forget i).callback? j =
      if j = i then none else q.callback? j := callback?_forget
  have hsub : ∀ j c, ((q.release s).forget i).callback? j = some c → q.callback? j = some c :=
    fun j c hj => by
      rw [hcallback] at hj
      split at hj
      next => cases hj
      next => exact hj
  refine ⟨h.timers.retire hi rfl, h.sources.update rfl rfl rfl rfl (fun e he => Or.inl he)
    (fun j c hj => Or.inl (hsub j c hj)) h.sources.dropped,
    h.ordered.update rfl rfl (fun j c hj => Or.inl (hsub j c hj)) fun x hx =>
      Or.inr (hx.imp id ?_)⟩
  rintro ⟨j, c, hj, hserver, hact⟩
  refine ⟨j, c, ?_, hserver, hact⟩
  rw [hcallback, if_neg]
  · exact hj
  · rintro rfl
    rw [hi] at hj
    cases hj
    cases hact

/-- A callback reads the latest snapshot of its server. -/
private theorem inv_read (h : Inv q) {i : Nat} {s : Int}
    (hi : q.callback? i = some ⟨s, .armed⟩) :
    Inv (q.enter i s (.read (q.store.get s) (q.version s))) := by
  refine inv_enter q h hi (h.timers.enter hi rfl rfl) ⟨rfl, rfl, rfl, rfl, rfl, rfl, rfl⟩ rfl
    ?_ fun _ hph => by cases hph
  rintro _ _ ⟨rfl, rfl⟩
  have hpos := h.sources.known i _ hi
  obtain ⟨snapshot, hget⟩ := Option.isSome_iff_exists.mp ((h.sources.stored s).mpr hpos)
  have hserver := h.sources.keyed s snapshot hget
  refine ⟨h.sources.entered_le s, snapshot, hget, hserver, hpos, ?_, fun _ => ?_⟩
  · exact Nat.le_of_eq (congrArg q.version hserver.symm)
  · exact (congrArg q.store.get hserver).trans hget

/-- A callback sends the snapshot it has read. -/
private theorem inv_send (h : Inv q) {i : Nat} {s : Int} {snapshot : Snapshot F} {v : Nat}
    (hi : q.callback? i = some ⟨s, .read (some snapshot) v⟩) (hserver : snapshot.serverID = s)
    (hmade : q.Made ⟨⟨.updated, snapshot⟩, v⟩) (hok : q.Sendable s v) :
    Inv (State.enter { q with queue := q.queue ++ [⟨⟨.updated, snapshot⟩, v⟩] } i s (.sent v)) := by
  have ht : Timers (q.enter i s (.sent v)) := h.timers.enter hi rfl rfl
  refine ⟨ht.congr rfl rfl rfl, ?_, h.ordered.send h.timers hi hserver hok⟩
  have hcallback : ∀ j, (State.enter { q with
      queue := q.queue ++ [⟨⟨.updated, snapshot⟩, v⟩] } i s (.sent v)).callback? j =
      if j = i then some ⟨s, .sent v⟩ else q.callback? j := fun j => callback?_enter j
  refine h.sources.update rfl rfl rfl rfl (fun e he => ?_) (fun j c hj => ?_) h.sources.dropped
  · rw [State.stream] at he
    simp only [State.enter, ← List.append_assoc, List.mem_append, List.mem_singleton] at he
    rcases he with he | rfl
    · exact Or.inl (List.mem_append.mpr he)
    · exact Or.inr hmade
  · rw [hcallback] at hj
    split at hj
    next =>
      cases hj
      exact Or.inr ⟨(h.sources.known i _ hi :), fun _ _ hph => by cases hph⟩
    next => exact Or.inl hj

/-- A callback that found the queue full calls `scheduleLatest`, and is no more. -/
private theorem inv_reschedule (h : Inv q) {i : Nat} {s : Int}
    (hi : q.callback? i = some ⟨s, .retry⟩) (hok : q.Coalesces s) :
    Inv ((q.forget i).scheduleLatest s) := by
  have hsub : ∀ j c, (q.forget i).callback? j = some c → q.callback? j = some c := by
    intro j c hj
    rw [callback?_forget] at hj
    split at hj
    next => cases hj
    next => exact hj
  refine inv_schedule (q.forget i) h (h.timers.forget hi) (h.sources.known i _ hi) rfl rfl rfl rfl
    rfl hsub (fun _ hx => hx) (fun x hx hold => hold.imp id ?_) ?_
  · rintro ⟨j, c, hj, hserver, hact⟩
    refine ⟨j, c, ?_, hserver, hact⟩
    rw [callback?_forget, if_neg]
    · exact hj
    · rintro rfl
      rw [hi] at hj
      cases hj
      exact hx hserver.symm
  · intro hp e he
    exact hok hp e (Map.mem_entries_iff.mpr (hsub e.1 e.2 (Map.mem_entries_iff.mp he)))

/-- Every step of a callback keeps what the queue has, if its guard holds. -/
theorem inv_callback {i : Nat} (hok : Ok q (.callback i)) (h : Inv q) : Inv (q.callback i) := by
  unfold State.callback
  split
  next => exact h
  next s phase hi =>
    change q.callback? i = some ⟨s, phase⟩ at hi
    cases phase with
    | armed => exact inv_read h hi
    | read got v =>
      obtain ⟨snapshot, rfl, hserver, hmade⟩ := h.sources.reads i s got v hi
      simp only [State.send]
      split
      next q' hq' =>
        split at hq'
        next hroom =>
          cases hq'
          exact inv_send h hi hserver hmade (hok _ hi hroom)
        next => cases hq'
      next =>
        exact inv_enter q h hi (h.timers.enter hi rfl rfl) ⟨rfl, rfl, rfl, rfl, rfl, rfl, rfl⟩ rfl
          (fun _ _ hph => by cases hph) fun _ hph => by cases hph
    | sent v => exact inv_retire h hi
    | failed =>
      exact inv_enter (q.release s) h hi (h.timers.leave hi rfl)
        ⟨rfl, rfl, rfl, rfl, rfl, rfl, rfl⟩ rfl (fun _ _ hph => by cases hph)
        fun _ hph => by cases hph
    | retry => exact inv_reschedule h hi (hok _ hi)

/-- **The step.** -/
theorem inv_step {a : Action F} (hok : Ok q a) (h : Inv q) : Inv (q.step a) := by
  cases a with
  | accept server report t ip =>
    simp only [State.step]
    split
    next hu =>
      exact ⟨h.timers.congr rfl rfl rfl,
        h.sources.accept (unlocked_iff.mp hu).1 hok report t ip,
        ⟨h.ordered.ascending, h.ordered.served, h.ordered.reader, h.ordered.sent⟩⟩
    next => exact h
  | sweep cutoff order =>
    simp only [State.step]
    split
    next hu =>
      rw [Bool.and_eq_true, decide_eq_true_eq] at hu
      exact ⟨h.timers.congr rfl rfl rfl, h.sources.sweep (unlocked_iff.mp hu.1).1 hu.2,
        ⟨h.ordered.ascending, h.ordered.served, h.ordered.reader, h.ordered.sent⟩⟩
    next => exact h
  | submit => exact inv_submit h
  | schedule =>
    simp only [State.step]
    split
    next => exact h
    next s hs =>
      refine inv_schedule { q with dropped := none } h (h.timers.congr rfl rfl rfl)
        (h.sources.dropped s hs) rfl rfl rfl rfl
        rfl (fun _ _ hi => hi) (fun _ hx => nomatch hx) (fun x hx hold => Or.inr ?_)
        (hok s hs)
      rcases hold with hd | hold
      · rw [hs] at hd
        exact absurd (Option.some.inj hd).symm hx
      · exact hold
  | dequeue =>
    simp only [State.step]
    split
    next => exact h
    next e queue hq =>
      have hstream : (q.evaluated ++ [e]) ++ queue = q.stream := by
        rw [State.stream, hq, List.append_assoc, List.singleton_append]
      exact ⟨h.timers.congr rfl rfl rfl,
        h.sources.update rfl rfl rfl rfl (fun x hx => Or.inl (hstream ▸ hx))
          (fun _ _ hi => Or.inl hi) h.sources.dropped,
        h.ordered.update rfl hstream (fun _ _ hi => Or.inl hi) fun _ hx => Or.inr hx⟩
  | callback i => exact inv_callback hok h

end Step

private theorem callback?_initial (i : Nat) : (State.initial : State F).callback? i = none := rfl

/-- At first nothing is queued or scheduled. -/
theorem inv_initial : Inv (State.initial : State F) := by
  have hnone : ∀ i c, ¬ (State.initial : State F).callback? i = some c := fun i c h => by
    rw [callback?_initial] at h
    cases h
  refine ⟨⟨fun i c h => absurd h (hnone i c), fun s => ?_,
      fun i _ c _ h => absurd h (hnone i c)⟩,
    { keyed := Store.keyed_empty
      positive := fun _ h => absurd h (Nat.lt_irrefl 0)
      stored := fun s => iff_of_false ?_ (Nat.lt_irrefl 0)
      made := fun e h => ?_
      reads := fun i _ _ _ h => absurd h (hnone i _)
      once := List.nodup_nil
      newest := fun _ h => absurd h List.not_mem_nil
      settled := fun _ _ => rfl
      known := fun i c h => absurd h (hnone i c)
      dropped := fun _ h => nomatch h },
    ⟨ascending_nil, fun _ => Or.inl (Nat.le_refl 0), fun i _ _ _ h => absurd h (hnone i _),
      fun i _ _ h => absurd h (hnone i _)⟩⟩
  · apply iff_of_false Bool.false_ne_true
    rintro ⟨i, c, h, _⟩
    exact hnone i c h
  · rw [State.initial, Store.get_empty]
    exact Bool.false_ne_true
  · rcases h with h | h | h <;> cases h

/-! ## Nothing is lost or overtaken -/

/-- The coordinator holds no lock, the queue is empty, and no callback has steps left. -/
structure Quiescent (q : State F) : Prop where
  published : q.publishing = []
  submitted : q.dropped = none
  drained : q.queue = []
  timers : ∀ i, q.callback? i = none

/-- Whether a state is quiescent. -/
def State.quiet (q : State F) : Bool :=
  q.unlocked && q.queue.isEmpty && q.callbacks.keys.isEmpty

/-- A quiet queue has nothing left to do. -/
theorem Quiescent.of_quiet {q : State F} (h : q.quiet = true) : Quiescent q := by
  simp only [State.quiet, Bool.and_eq_true, unlocked_iff, List.isEmpty_iff] at h
  obtain ⟨⟨⟨hpublishing, hdropped⟩, hqueue⟩, hkeys⟩ := h
  refine ⟨hpublishing, hdropped, hqueue, fun i => AList.lookup_eq_none.mpr fun hi => ?_⟩
  rw [AList.mem_keys, hkeys] at hi
  cases hi

/-- The evaluator keeps up with the publications: evaluations never go back, and once there is
nothing left to do the last snapshot evaluated of a server is the last one published of it. -/
def KeepsUp (q : State F) : Prop :=
  Ascending Entry.server Entry.version q.evaluated ∧
    (Quiescent q → ∀ s, (lastOf Entry.server s q.evaluated).map (·.event.snapshot) =
      (lastOf Entry.server s q.published).map (·.event.snapshot))

/-- What the invariant says of the reports is what is claimed of every state. -/
theorem Inv.keepsUp {q : State F} (h : Inv q) : KeepsUp q := by
  refine ⟨(List.pairwise_append.mp h.ordered.ascending).1, fun hq s => ?_⟩
  have hstream : q.stream = q.evaluated := by rw [State.stream, hq.drained, List.append_nil]
  have hsubmitted : q.submitted s = q.version s :=
    h.sources.settled s fun e he => absurd he (by rw [hq.published]; exact List.not_mem_nil)
  have hentered : q.entered s = q.version s := by
    apply Nat.le_antisymm (h.sources.entered_le s)
    rcases h.ordered.served s with hle | hd | ⟨i, c, hi, _⟩
    · exact hsubmitted ▸ hle
    · rw [hq.submitted] at hd
      cases hd
    · rw [hq.timers] at hi
      cases hi
  -- both logs end, for the server, in an entry of the number of the stored snapshot
  have hlast : ∀ l, (∀ e ∈ l, q.Made e) → latest Entry.server Entry.version s l = q.version s →
      (lastOf Entry.server s l).map (·.event.snapshot) = q.store.get s := fun l hl hv => by
    by_cases hpos : 0 < q.version s
    · obtain ⟨e, he, hrank⟩ := exists_of_latest_pos (hv ▸ hpos)
      obtain ⟨hmem, hserver⟩ := lastOf_mem he
      rw [he, Option.map_some, ← hserver]
      refine ((hl e hmem).2.2 ?_).symm
      rw [hrank, hv, hserver]
    · have hnone : q.store.get s = none := by
        rw [← Option.not_isSome_iff_eq_none, h.sources.stored]
        exact hpos
      cases he : lastOf Entry.server s l with
      | none => rw [hnone, Option.map_none]
      | some e =>
        have hrank : e.version = q.version s := by rw [← hv, latest, he, Option.elim_some]
        have := (hl e (lastOf_mem he).1).1
        omega
  rw [hlast q.evaluated (fun e he => h.sources.made e (Or.inr (Or.inr (hstream ▸ he))))
      (by rw [← hstream]; exact hentered),
    hlast q.published (fun e he => h.sources.made e (Or.inl he)) hsubmitted]

/-- **No final state is lost or overtaken** in a run in which no callback sends a snapshot older
than the last one submitted of its server (unless the `scheduleLatest` of that one is still to come
and nothing newer has entered the queue), and no call of `scheduleLatest` relies on a callback that
has sent one. -/
theorem keepsUp_of_guarded (as : List (Action F)) (h : Guarded State.step Ok State.initial as) :
    KeepsUp (run State.step State.initial as) :=
  (h.invariant (fun _ _ hok hi => inv_step hok hi) inv_initial).keepsUp

/-! ## Runs that overflow the queue -/

section Overflow

/-- Whether the last snapshot of server 1 in a log is online. -/
def lastOnline (l : List (Entry Exact)) : Option Bool :=
  (lastOf Entry.server 1 l).map (·.event.snapshot.online)

/-- Server 1 goes offline before the callback reads its snapshot. -/
def madeUpFor : List (Action Exact) :=
  filled ++ [report 1 0, .submit, .schedule, .sweep (.ofUnix 31) [1], .submit, .schedule,
    .callback 0, .dequeue, .callback 0, .callback 0] ++ drained

/-- The queue overflows, and the callback makes up for what was dropped. -/
theorem madeUpFor_keepsUp :
    lastOnline (run State.step State.initial madeUpFor).evaluated = some false ∧
      KeepsUp (run State.step State.initial madeUpFor) :=
  ⟨by decide +kernel, keepsUp_of_guarded madeUpFor (by decide +kernel)⟩

/-- Server 1 goes offline after the callback has sent its snapshot, and before it returns. -/
def lost : List (Action Exact) :=
  filled ++ [report 1 0, .submit, .schedule, .callback 0, .dequeue, .callback 0,
    .sweep (.ofUnix 31) [1], .submit, .schedule, .callback 0] ++ drained

/-- Nothing is left to do, and the last evaluation of server 1 saw it online. -/
theorem lost_not_keepsUp : ¬ KeepsUp (run State.step State.initial lost) := by
  have hend : ((run State.step State.initial lost).quiet,
      lastOnline (run State.step State.initial lost).evaluated,
      lastOnline (run State.step State.initial lost).published) =
        (true, some true, some false) := by decide +kernel
  generalize run State.step State.initial lost = q at hend
  obtain ⟨hquiet, hlogs⟩ := Prod.mk.inj hend
  obtain ⟨hevaluated, hpublished⟩ := Prod.mk.inj hlogs
  intro h
  have hlast := congrArg (Option.map (·.online)) (h.2 (.of_quiet hquiet) 1)
  rw [Option.map_map, Option.map_map] at hlast
  cases hevaluated.symm.trans (hlast.trans hpublished)

end Overflow

end TinyProbe.Alerting.Queue
