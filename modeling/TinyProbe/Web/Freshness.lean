import TinyProbe.Lib.Comparator
import TinyProbe.Lib.Run
import TinyProbe.Web.LiveHook
import Mathlib.Data.String.Basic

/-!
# The live list is never behind its events

The list shows of every server the last event that came since the answer it was last given had been
asked for, and without one what the answer says (`Listed.shown`). A server's revision is behind that of
a request exactly when it had no event since (`Recorded.revisions`), so an answer replaces what it is
newer than and nothing else; and it is asked for later than any answer before it, as the others are
ignored.
-/

namespace TinyProbe.Web

open Live Run
open TinyProbe.Stream

variable {F : Type}

/-! ## The order of the list -/

/-- Offline servers come first, and otherwise the names say. -/
def Precedes (localeCompare : String → String → Int) (left right : Snapshot F) : Prop :=
  (left.online = true → right.online = true) ∧
    (left.online = right.online → localeCompare left.serverName right.serverName ≤ 0)

section Order

variable {localeCompare : String → String → Int} {snapshots : List (Snapshot F)}

/-- The comparator puts one snapshot before another when it precedes it. -/
theorem compareSnapshots_le_zero {left right : Snapshot F} :
    compareSnapshots localeCompare left right ≤ 0 ↔ Precedes localeCompare left right :=
  @flagged_le_zero _ (fun left right : Snapshot F => localeCompare left.serverName right.serverName)
    Snapshot.online left right

private theorem comparator_compareSnapshots (h : Comparator localeCompare) :
    Comparator (compareSnapshots (F := F) localeCompare) :=
  (h.comap Snapshot.serverName).flagged Snapshot.online

/-- A sorted list is in the order that the page shows: offline first, then by name. -/
theorem ordered_sort (h : Comparator localeCompare) :
    (sortSnapshots localeCompare snapshots).Pairwise (Precedes localeCompare) :=
  ((comparator_compareSnapshots h).pairwise_insertionSort snapshots).imp
    compareSnapshots_le_zero.mp

/-- Every function that the hook passes to `setSnapshots` sorts. -/
theorem Update.ordered_apply (h : Comparator localeCompare) (eventRevisions : Map Int Nat)
    (u : Update F) :
    (u.apply localeCompare eventRevisions snapshots).Pairwise (Precedes localeCompare) := by
  cases u with
  | merge incoming =>
    simp only [Update.apply, mergeSnapshot]
    split
    next => exact ordered_sort h
    next => exact ordered_sort h
  | reconcile fetched requestRevision => exact ordered_sort h

end Order

namespace Hook

/-! ## What the hook has heard -/

/-- The revisions count the events, and a server's is its last event's. -/
structure Recorded (s : Hook F) : Prop where
  revision : s.eventRevisionRef = s.received.length
  revisions : ∀ id n, n < revisionOf s.serverEventRevisionsRef id ↔
    (lastOf Snapshot.serverID id (s.received.drop n)).isSome

/-- The requests, and what had been heard when they were sent. -/
structure Sent (s : Hook F) : Prop where
  known : ∀ g request, s.requests g = some request → g ≤ s.requestGenerationRef
  latest : 0 < s.requestGenerationRef → ∃ request, s.requests s.requestGenerationRef = some request
  heard : ∀ g request, s.requests g = some request →
    request.requestRevision = request.heard ∧ request.heard ≤ s.received.length
  aborted : ∀ request, s.requests s.requestGenerationRef = some request → request.aborted = true →
    s.mountedRef = false
  /-- What the last answer had heard, the latest request has. -/
  recent : ∀ request, s.requests s.requestGenerationRef = some request →
    s.applied.heard ≤ request.heard

/-- The list, and what it shows. -/
structure Listed (localeCompare : String → String → Int) (s : Hook F) : Prop where
  distinct : Distinct s.snapshots
  ordered : s.snapshots.Pairwise (Precedes localeCompare)
  updates : ∀ u ∈ s.updates, u.Distinct
  applied : s.applied.heard ≤ s.received.length
  shown : ∀ id, s.shown id =
    (lastOf Snapshot.serverID id (s.received.drop s.applied.heard)).or
      (snapshotOf? id s.applied.fetched)

structure Inv (localeCompare : String → String → Int) (s : Hook F) : Prop where
  recorded : s.Recorded
  sent : s.Sent
  listed : s.Listed localeCompare

section Laws

variable {localeCompare : String → String → Int} {s s' : Hook F} {g : Nat} {request : Request}
  {id : Int}

/-- What is the last event of a server in a later part is so in an earlier one. -/
private theorem lastOf_drop {l : List (Snapshot F)} {n m : Nat} (h : n ≤ m) {snapshot : Snapshot F}
    (hlast : lastOf Snapshot.serverID id (l.drop m) = some snapshot) :
    lastOf Snapshot.serverID id (l.drop n) = some snapshot := by
  have hsplit : l.drop n = (l.drop n).take (m - n) ++ l.drop m := by
    rw [← Nat.add_sub_cancel' h, ← List.drop_drop, Nat.add_sub_cancel_left, List.take_append_drop]
  rw [hsplit, lastOf_append, hlast, Option.some_or]

/-- A hook that has not mounted has heard nothing, asked for nothing and shows nothing. -/
theorem inv_new : Inv localeCompare (new : Hook F) where
  recorded := by
    refine ⟨rfl, fun id n => ?_⟩
    show n < 0 ↔ (lastOf Snapshot.serverID id (([] : List (Snapshot F)).drop n)).isSome = true
    rw [List.drop_nil]
    exact iff_of_false (Nat.not_lt_zero n) Bool.false_ne_true
  sent := by
    refine ⟨?_, fun h => absurd h (Nat.lt_irrefl 0), ?_, ?_, ?_⟩
    · intro g request h
      cases h
    · intro g request h
      cases h
    · intro request h
      cases h
    · intro request h
      cases h
  listed :=
    ⟨List.nodup_nil, List.Pairwise.nil, fun u h => absurd h List.not_mem_nil, Nat.le_refl 0,
      fun _ => rfl⟩

/-- What is shown depends on the list, the functions to run and the revisions. -/
theorem shown_congr (hsnapshots : s'.snapshots = s.snapshots) (hupdates : s'.updates = s.updates)
    (hrevision : revisionOf s'.serverEventRevisionsRef id = revisionOf s.serverEventRevisionsRef id) :
    s'.shown id = s.shown id := by
  rw [shown, shown, hsnapshots, hupdates, hrevision]

/-- What the list shows depends on the list, its updates, the revisions and what was heard. -/
theorem Listed.of_eq (h : s.Listed localeCompare) (hsnapshots : s'.snapshots = s.snapshots)
    (hupdates : s'.updates = s.updates)
    (hrevisions : s'.serverEventRevisionsRef = s.serverEventRevisionsRef)
    (hreceived : s'.received = s.received) (happlied : s'.applied = s.applied) :
    s'.Listed localeCompare := by
  refine ⟨hsnapshots ▸ h.distinct, hsnapshots ▸ h.ordered, hupdates ▸ h.updates, ?_, fun id => ?_⟩
  · rw [happlied, hreceived]
    exact h.applied
  · rw [shown_congr hsnapshots hupdates (by rw [hrevisions]), h.shown, hreceived, happlied]

/-- What the revisions record depends on them and on what was heard. -/
theorem Recorded.of_eq (h : s.Recorded) (hrevision : s'.eventRevisionRef = s.eventRevisionRef)
    (hrevisions : s'.serverEventRevisionsRef = s.serverEventRevisionsRef)
    (hreceived : s'.received = s.received) : s'.Recorded := by
  refine ⟨?_, ?_⟩
  · rw [hrevision, hreceived]
    exact h.revision
  · rw [hrevisions, hreceived]
    exact h.revisions

/-! ## Requests -/

/-- A step of the requests: they stay what they were, but for what becomes of them. -/
theorem Sent.of_requests (h : s.Sent)
    (hrequests : ∀ g, ∃ f : Request → Request, s'.requests g = (s.requests g).map f ∧
      ∀ request, (f request).requestRevision = request.requestRevision ∧
        (f request).heard = request.heard ∧
        ((f request).aborted = true → request.aborted = true ∨ s'.mountedRef = false))
    (hgeneration : s'.requestGenerationRef = s.requestGenerationRef)
    (hmounted : s.mountedRef = false → s'.mountedRef = false) (hreceived : s'.received = s.received)
    (happlied : s'.applied = s.applied) : s'.Sent := by
  have hold : ∀ g request, s'.requests g = some request → ∃ old, s.requests g = some old ∧
      request.requestRevision = old.requestRevision ∧ request.heard = old.heard ∧
      (request.aborted = true → old.aborted = true ∨ s'.mountedRef = false) := by
    intro g request hg
    obtain ⟨f, hf, hkeeps⟩ := hrequests g
    rw [hf] at hg
    obtain ⟨old, hget, rfl⟩ := Option.map_eq_some_iff.mp hg
    exact ⟨old, hget, hkeeps old⟩
  refine ⟨?_, ?_, ?_, ?_, ?_⟩
  · intro g request hg
    obtain ⟨old, hget, _⟩ := hold g request hg
    exact hgeneration ▸ h.known g old hget
  · intro hpos
    obtain ⟨old, hget⟩ := h.latest (hgeneration ▸ hpos)
    obtain ⟨f, hf, _⟩ := hrequests s.requestGenerationRef
    exact ⟨f old, by rw [hgeneration, hf, hget, Option.map_some]⟩
  · intro g request hg
    obtain ⟨old, hget, hrevision, hheard, _⟩ := hold g request hg
    rw [hrevision, hheard, hreceived]
    exact h.heard g old hget
  · intro request hg haborted
    obtain ⟨old, hget, _, _, hor⟩ := hold _ request hg
    rcases hor haborted with habort | hout
    · exact hmounted (h.aborted old (hgeneration ▸ hget) habort)
    · exact hout
  · intro request hg
    obtain ⟨old, hget, _, hheard, _⟩ := hold _ request hg
    rw [happlied, hheard]
    exact h.recent old (hgeneration ▸ hget)

/-- A request that settles aborts none, so the others stay as they were. -/
theorem Inv.settle (h : s.Inv localeCompare) (hrequest : s.requests g = some request) :
    (s.settle g request).Inv localeCompare := by
  refine ⟨h.recorded.of_eq rfl rfl rfl, ?_, h.listed.of_eq rfl rfl rfl rfl rfl⟩
  refine h.sent.of_requests (fun g' => ?_) rfl (fun hout => hout) rfl rfl
  by_cases hg : g' = g
  · subst hg
    refine ⟨fun request => { request with settled := true }, ?_, fun request => ⟨rfl, rfl, Or.inl⟩⟩
    rw [hrequest]
    exact Function.update_self ..
  · refine ⟨id, ?_, fun request => ⟨rfl, rfl, Or.inl⟩⟩
    rw [Option.map_id]
    exact Function.update_of_ne hg ..

/-- Unmounting aborts the request under way, and nobody waits for it any more. -/
theorem Inv.unmount (h : s.Inv localeCompare) : s.unmount.Inv localeCompare := by
  refine ⟨h.recorded.of_eq rfl rfl rfl, ?_, h.listed.of_eq rfl rfl rfl rfl rfl⟩
  refine h.sent.of_requests (fun g => ⟨_, rfl, fun request => ?_⟩) rfl (fun _ => rfl) rfl rfl
  split
  next => exact ⟨rfl, rfl, fun _ => Or.inr rfl⟩
  next => exact ⟨rfl, rfl, Or.inl⟩

/-- What is not a request, a revision or the list is nobody's. -/
theorem Inv.of_eq (h : s.Inv localeCompare) (hsnapshots : s'.snapshots = s.snapshots)
    (hupdates : s'.updates = s.updates) (hmounted : s'.mountedRef = s.mountedRef)
    (hrevision : s'.eventRevisionRef = s.eventRevisionRef)
    (hrevisions : s'.serverEventRevisionsRef = s.serverEventRevisionsRef)
    (hgeneration : s'.requestGenerationRef = s.requestGenerationRef)
    (hrequests : s'.requests = s.requests) (hreceived : s'.received = s.received)
    (happlied : s'.applied = s.applied) : s'.Inv localeCompare := by
  refine ⟨h.recorded.of_eq hrevision hrevisions hreceived, ?_,
    h.listed.of_eq hsnapshots hupdates hrevisions hreceived happlied⟩
  refine h.sent.of_requests (fun g => ⟨id, ?_, fun request => ⟨rfl, rfl, Or.inl⟩⟩) hgeneration
    (fun hout => hmounted.trans hout) hreceived happlied
  rw [hrequests, Option.map_id, id]

/-- `refresh` sends one request of a new generation, at the revision of the last event. -/
theorem requests_refresh (g : Nat) :
    s.refresh.requests g =
      if g = s.requestGenerationRef + 1 then
        some ⟨s.eventRevisionRef, s.received.length, false, false⟩
      else s.requests g :=
  Function.update_apply ..

/-- A new request has heard every event so far, the last answer's among them. -/
theorem Inv.refresh (h : s.Inv localeCompare) (mounted : Bool) :
    ({ s with mountedRef := mounted } : Hook F).refresh.Inv localeCompare := by
  refine ⟨h.recorded.of_eq rfl rfl rfl, ?_, h.listed.of_eq rfl rfl rfl rfl rfl⟩
  have hnew : ∀ request,
      ({ s with mountedRef := mounted } : Hook F).refresh.requests (s.requestGenerationRef + 1) =
        some request → request = ⟨s.eventRevisionRef, s.received.length, false, false⟩ := by
    intro request hg
    rw [requests_refresh, if_pos rfl] at hg
    exact (Option.some.inj hg).symm
  refine ⟨?_, ?_, ?_, ?_, ?_⟩
  · intro g request hg
    rw [requests_refresh] at hg
    split at hg
    next heq => exact Nat.le_of_eq heq
    next => exact Nat.le_succ_of_le (h.sent.known g request hg)
  · intro _
    exact ⟨_, (requests_refresh _).trans (if_pos rfl)⟩
  · intro g request hg
    rw [requests_refresh] at hg
    split at hg
    next =>
      cases hg
      exact ⟨h.recorded.revision, Nat.le_refl _⟩
    next => exact h.sent.heard g request hg
  · intro request hg haborted
    rw [hnew request hg] at haborted
    cases haborted
  · intro request hg
    rw [hnew request hg]
    exact h.listed.applied

/-! ## Answers -/

theorem shown_push (s : Hook F) (u : Update F) (id : Int) :
    ({ s with updates := s.updates ++ [u] } : Hook F).shown id =
      u.onServer id (revisionOf s.serverEventRevisionsRef id) (s.shown id) := by
  simp only [shown, List.foldl_append, List.foldl_cons, List.foldl_nil]

/-- **An answer replaces what it is newer than.** -/
theorem Inv.onServer (h : s.Inv localeCompare) (hheard : s.applied.heard ≤ request.heard)
    (hrevision : request.requestRevision = request.heard) (fetched : List (Snapshot F)) (id : Int) :
    (Update.reconcile fetched request.requestRevision).onServer id
        (revisionOf s.serverEventRevisionsRef id) (s.shown id) =
      (lastOf Snapshot.serverID id (s.received.drop request.heard)).or (snapshotOf? id fetched) := by
  rw [Update.onServer, hrevision]
  split
  next hlt =>
    obtain ⟨snapshot, hlast⟩ := Option.isSome_iff_exists.mp ((h.recorded.revisions id _).mp hlt)
    rw [h.listed.shown, lastOf_drop hheard hlast, hlast, Option.some_or, Option.some_or]
  next hge =>
    have hnone : lastOf Snapshot.serverID id (s.received.drop request.heard) = none := by
      by_contra hsome
      exact hge ((h.recorded.revisions id _).mpr (Option.isSome_iff_ne_none.mpr hsome))
    rw [hnone, Option.none_or]

/-- An answer counts only when it is to the latest request, and then it becomes the last. -/
theorem Inv.respond (h : s.Inv localeCompare) (hrequest : s.requests g = some request)
    (next : Answer F) : (s.respond g request next).Inv localeCompare := by
  unfold Hook.respond
  split
  next => exact h
  next hlive =>
    obtain rfl : g = s.requestGenerationRef := not_not.mp (not_or.mp hlive).2
    obtain ⟨hrevision, hle⟩ := h.sent.heard _ request hrequest
    refine ⟨h.recorded.of_eq rfl rfl rfl, ?_, ?_⟩
    · refine ⟨h.sent.known, h.sent.latest, h.sent.heard, h.sent.aborted, ?_⟩
      intro latest hlatest
      rw [Option.some.inj (hrequest.symm.trans hlatest)]
    · refine ⟨h.listed.distinct, h.listed.ordered, ?_, hle, fun id => ?_⟩
      · exact List.forall_mem_append.mpr
          ⟨h.listed.updates, List.forall_mem_singleton.mpr next.distinct⟩
      · exact (shown_push s _ id).trans
          (h.onServer (h.sent.recent request hrequest) hrevision next.snapshots id)

/-- A failed request changes what is said of it and nothing of the list. -/
theorem Inv.fail (h : s.Inv localeCompare) (serverMessage : Option String) :
    (s.fail g request serverMessage).Inv localeCompare := by
  unfold Hook.fail
  split
  next => exact h
  next => exact h.of_eq rfl rfl rfl rfl rfl rfl rfl rfl rfl

/-! ## Events -/

theorem drop_snoc {l : List (Snapshot F)} (snapshot : Snapshot F) (n : Nat) :
    lastOf Snapshot.serverID id ((l ++ [snapshot]).drop n) =
      if n ≤ l.length ∧ snapshot.serverID = id then some snapshot
      else lastOf Snapshot.serverID id (l.drop n) := by
  by_cases hn : n ≤ l.length
  · rw [List.drop_append_of_le_length hn, lastOf_snoc]
    simp only [hn, true_and]
  · have hle := Nat.le_of_not_le hn
    rw [if_neg fun h => hn h.1, List.drop_eq_nil_of_le hle, List.drop_eq_nil_of_le]
    rw [List.length_append, List.length_singleton]
    exact Nat.lt_of_not_le hn

/-- The state after an event. -/
def heed (s : Hook F) (snapshot : Snapshot F) : Hook F :=
  { s with
    eventRevisionRef := s.eventRevisionRef + 1
    serverEventRevisionsRef := s.serverEventRevisionsRef.insert snapshot.serverID (s.eventRevisionRef + 1)
    updates := s.updates ++ [.merge snapshot]
    received := s.received ++ [snapshot] }

/-- An event gives its server the next revision. -/
private theorem revisionOf_heed (snapshot : Snapshot F) (id : Int) :
    revisionOf (s.heed snapshot).serverEventRevisionsRef id =
      if id = snapshot.serverID then s.eventRevisionRef + 1
      else revisionOf s.serverEventRevisionsRef id := by
  rw [revisionOf, heed, Map.lookup_insert]
  split
  next => rfl
  next => rfl

/-- An event is what the list shows of its server from then on. -/
private theorem shown_heed (snapshot : Snapshot F) (id : Int) :
    (s.heed snapshot).shown id = if snapshot.serverID = id then some snapshot else s.shown id := by
  apply (shown_push { s.heed snapshot with updates := s.updates } _ id).trans
  rw [Update.onServer]
  split
  next => rfl
  next hne => exact shown_congr rfl rfl (by rw [revisionOf_heed, if_neg fun heq => hne heq.symm])

private theorem Recorded.heed (h : s.Recorded) (snapshot : Snapshot F) :
    (s.heed snapshot).Recorded := by
  refine ⟨?_, fun id n => ?_⟩
  · show s.eventRevisionRef + 1 = (s.received ++ [snapshot]).length
    rw [List.length_append, List.length_singleton, h.revision]
  · have hle := (h.revisions id s.received.length).not
    rw [List.drop_length, Nat.not_lt] at hle
    have hrevision : revisionOf s.serverEventRevisionsRef id ≤ s.received.length :=
      hle.mpr Bool.false_ne_true
    rw [revisionOf_heed, h.revision]
    show _ ↔ (lastOf _ _ ((s.received ++ [snapshot]).drop n)).isSome = true
    rw [drop_snoc]
    by_cases hid : snapshot.serverID = id
    · rw [if_pos hid.symm]
      by_cases hn : n ≤ s.received.length
      · rw [if_pos ⟨hn, hid⟩]
        exact iff_of_true (Nat.lt_succ_of_le hn) rfl
      · rw [if_neg fun h => hn h.1, ← h.revisions id n]
        exact iff_of_false (fun hlt => hn (Nat.le_of_lt_succ hlt)) (by omega)
    · rw [if_neg fun heq => hid heq.symm, if_neg fun h => hid h.2]
      exact h.revisions id n

/-- The last event of a server is what the list shows, whichever request is under way. -/
theorem Inv.heed (h : s.Inv localeCompare) (snapshot : Snapshot F) :
    (s.heed snapshot).Inv localeCompare := by
  have hgrows : s.received.length ≤ (s.heed snapshot).received.length :=
    (List.sublist_append_left _ _).length_le
  refine ⟨h.recorded.heed snapshot, ?_, ?_⟩
  · refine ⟨h.sent.known, h.sent.latest, ?_, h.sent.aborted, h.sent.recent⟩
    intro g request hg
    obtain ⟨hrevision, hle⟩ := h.sent.heard g request hg
    exact ⟨hrevision, Nat.le_trans hle hgrows⟩
  · refine ⟨h.listed.distinct, h.listed.ordered, ?_, Nat.le_trans h.listed.applied hgrows,
      fun id => ?_⟩
    · exact List.forall_mem_append.mpr ⟨h.listed.updates, List.forall_mem_singleton.mpr trivial⟩
    · rw [shown_heed]
      show _ = (lastOf _ _ ((s.received ++ [snapshot]).drop s.applied.heard)).or _
      rw [drop_snoc]
      by_cases hid : snapshot.serverID = id
      · rw [if_pos hid, if_pos ⟨h.listed.applied, hid⟩, Option.some_or]
      · rw [if_neg hid, if_neg fun hand => hid hand.2]
        exact h.listed.shown id

/-- An event is heeded when it can be read and the hook is mounted, and ignored otherwise. -/
theorem Inv.handleSnapshot (h : s.Inv localeCompare) (data : Option (EventData F)) :
    (s.handleSnapshot data).Inv localeCompare := by
  unfold Hook.handleSnapshot
  split
  next => exact h
  next snapshot _ =>
    split
    next => exact h.heed snapshot
    next => exact h

/-- Opening sends a request at most. -/
theorem Inv.onopen (h : s.Inv localeCompare) : s.onopen.Inv localeCompare := by
  unfold Hook.onopen
  split
  next => exact h
  next =>
    have hopened : ({ s with
        liveConnected := true
        connectionFailed := false
        error := if s.error = some connectionError then none else s.error } : Hook F).Inv
          localeCompare := h.of_eq rfl rfl rfl rfl rfl rfl rfl rfl rfl
    dsimp only
    split
    next => exact (hopened.refresh s.mountedRef).of_eq rfl rfl rfl rfl rfl rfl rfl rfl rfl
    next => exact h.of_eq rfl rfl rfl rfl rfl rfl rfl rfl rfl

/-- A failed connection is noted, and the list stays. -/
theorem Inv.onerror (h : s.Inv localeCompare) : s.onerror.Inv localeCompare := by
  unfold Hook.onerror
  split
  next => exact h
  next => exact h.of_eq rfl rfl rfl rfl rfl rfl rfl rfl rfl

/-- React runs the next function, and that shows what it was to show. -/
theorem Inv.render (h : s.Inv localeCompare) (hcompare : Comparator localeCompare) {u : Update F}
    {updates : List (Update F)} (hupdates : s.updates = u :: updates) :
    ({ s with
      snapshots := u.apply localeCompare s.serverEventRevisionsRef s.snapshots
      updates } : Hook F).Inv localeCompare := by
  have hall := h.listed.updates
  rw [hupdates, List.forall_mem_cons] at hall
  refine ⟨h.recorded.of_eq rfl rfl rfl, ⟨h.sent.known, h.sent.latest, h.sent.heard, h.sent.aborted,
    h.sent.recent⟩, ⟨Update.distinct_apply h.listed.distinct hall.1,
    Update.ordered_apply hcompare _ u, hall.2, h.listed.applied, fun id => ?_⟩⟩
  rw [← h.listed.shown id, shown, shown, hupdates, List.foldl_cons,
    Update.snapshotOf?_apply h.listed.distinct hall.1]

private theorem requests_of_underWay? (h : s.underWay? g = some request) :
    s.requests g = some request :=
  (Option.filter_eq_some_iff.mp h).1

private theorem requests_respond (next : Answer F) :
    (s.respond g request next).requests = s.requests := by
  unfold respond
  split
  next => rfl
  next => rfl

private theorem requests_fail (serverMessage : Option String) :
    (s.fail g request serverMessage).requests = s.requests := by
  unfold fail
  split
  next => rfl
  next => rfl

/-- **Every step keeps the invariant.** -/
theorem Inv.step (h : s.Inv localeCompare) (hcompare : Comparator localeCompare) (a : Action F) :
    (s.step localeCompare a).Inv localeCompare := by
  unfold Hook.step
  split
  next => exact h.refresh true
  next => exact h.unmount
  next => exact h.refresh s.mountedRef
  next =>
    split
    next => exact h
    next hrequest =>
      have hrequest := requests_of_underWay? hrequest
      exact (h.respond hrequest _).settle ((congrFun (requests_respond _) _).trans hrequest)
  next =>
    split
    next => exact h
    next hrequest =>
      exact (h.fail _).settle ((congrFun (requests_fail _) _).trans (requests_of_underWay? hrequest))
  next => exact h.handleSnapshot _
  next => exact h.onopen
  next => exact h.onerror
  next =>
    split
    next => exact h
    next hupdates => exact h.render hcompare hupdates

/-- Every run of the hook keeps to its record. -/
theorem inv_run (hcompare : Comparator localeCompare) (as : List (Action F)) :
    (run (step localeCompare) new as).Inv localeCompare :=
  run_invariant (fun _ a h => h.step hcompare a) inv_new as

end Laws

/-! ## What the list shows -/

/-- Neither the list nor what it is going to show has changed. -/
def SameList (s s' : Hook F) : Prop :=
  s'.snapshots = s.snapshots ∧ s'.updates = s.updates ∧ s'.applied = s.applied

/-- The list has one snapshot of each server, offline servers first and then by name. Once React has
run everything it shows of a server the last event since the last answer applied was asked for, or else
what this answer says; a server it says nothing of is shown exactly if it had such an event. The answer
of a request is applied unless the request is stale, and then it changes nothing, as a failure never
does. -/
structure Fresh (localeCompare : String → String → Int) (s : Hook F) : Prop where
  distinct : Distinct s.snapshots
  ordered : s.snapshots.Pairwise (Precedes localeCompare)
  shown : s.updates = [] → ∀ id, snapshotOf? id s.snapshots =
    (lastOf Snapshot.serverID id (s.received.drop s.applied.heard)).or
      (snapshotOf? id s.applied.fetched)
  applied : ∀ g request next, s.underWay? g = some request → ¬ s.Stale g →
    (s.step localeCompare (.respond g next)).applied = ⟨next.snapshots, request.heard⟩
  stale : ∀ g next, s.Stale g → s.SameList (s.step localeCompare (.respond g next))
  failed : ∀ g serverMessage, s.SameList (s.step localeCompare (.fail g serverMessage))

section Laws

variable {localeCompare : String → String → Int} {s : Hook F} {g : Nat} {request : Request}

/-- A request that is not stale is the latest one of a mounted hook. -/
theorem Sent.latest_of_not_stale (h : s.Sent) (hrequest : s.requests g = some request)
    (hstale : ¬ s.Stale g) : s.mountedRef = true ∧ g = s.requestGenerationRef := by
  obtain ⟨hlatest, _, hmounted⟩ := (not_or.mp hstale).imp_right not_or.mp
  refine ⟨eq_true_of_ne_false hmounted, Nat.le_antisymm (h.known g request hrequest) ?_⟩
  by_contra hlt
  have hlt := Nat.lt_of_not_le hlt
  obtain ⟨later, hlater⟩ := h.latest (Nat.zero_lt_of_lt hlt)
  exact hlatest ⟨_, later, hlt, hlater⟩

/-- An answer to a request that is not the latest is not acted on. -/
theorem Sent.not_live_of_stale (h : s.Sent) (hstale : s.Stale g) :
    (!s.mountedRef) = true ∨ g ≠ s.requestGenerationRef := by
  rcases hstale with ⟨later, request, hlt, hlater⟩ | ⟨request, hrequest, haborted⟩ | hout
  · exact Or.inr (Nat.ne_of_lt (Nat.lt_of_lt_of_le hlt (h.known later request hlater)))
  · by_cases hg : g = s.requestGenerationRef
    · subst hg
      rw [h.aborted request hrequest haborted]
      exact Or.inl rfl
    · exact Or.inr hg
  · rw [hout]
    exact Or.inl rfl

/-- What the invariant says is what is promised of every state. -/
theorem Inv.fresh (h : s.Inv localeCompare) : s.Fresh localeCompare where
  distinct := h.listed.distinct
  ordered := h.listed.ordered
  shown hupdates id := by
    rw [← h.listed.shown id, Hook.shown, hupdates, List.foldl_nil]
  applied g request next hrequest hstale := by
    obtain ⟨hmounted, hg⟩ := h.sent.latest_of_not_stale (requests_of_underWay? hrequest) hstale
    have hlive : ¬ ((!s.mountedRef) = true ∨ g ≠ s.requestGenerationRef) := by
      rw [hmounted]
      exact not_or.mpr ⟨Bool.false_ne_true, not_not.mpr hg⟩
    simp only [Hook.step, hrequest, Hook.respond, if_neg hlive]
    rfl
  stale g next hstale := by
    have hlive := h.sent.not_live_of_stale hstale
    simp only [Hook.step]
    split
    next => exact ⟨rfl, rfl, rfl⟩
    next =>
      rw [Hook.respond, if_pos hlive]
      exact ⟨rfl, rfl, rfl⟩
  failed g serverMessage := by
    simp only [Hook.step]
    split
    next => exact ⟨rfl, rfl, rfl⟩
    next =>
      unfold Hook.fail
      split
      next => exact ⟨rfl, rfl, rfl⟩
      next => exact ⟨rfl, rfl, rfl⟩

/-- **A fetch never overwrites a newer live event**, whatever is called and arrives and in whatever
order. Once React has run its updates, the list shows of a server the last event since the last
answer applied was asked for, or else what that answer says; an answer that is no longer asked for
changes nothing. -/
theorem hook_fresh (localeCompare : String → String → Int) (hcompare : Comparator localeCompare)
    (as : List (Action F)) : (run (step localeCompare) new as).Fresh localeCompare :=
  (inv_run hcompare as).fresh

end Laws

/-- The snapshot of a server. -/
def named (serverID : Int) (serverName : String) (online : Bool) : Snapshot Exact :=
  ⟨serverID, serverName, online, .ofUnix 0, "", .ofCPU (.fin 0)⟩

/-- The first fetch, overtaken by an event of the second of its servers. -/
def overtaken : List (Action Exact) :=
  [.mount, .event (some ⟨some "snapshot.offline", some (named 2 "beta" false)⟩),
    .respond 1 ⟨[named 1 "alpha" true, named 2 "beta" true], by unfold Distinct; decide⟩, .render,
    .render]

/-- The event stands, and its server comes first. -/
theorem overtaken_fresh : (run (step compareOf) new overtaken).Fresh compareOf ∧
    (run (step compareOf) new overtaken).snapshots = [named 2 "beta" false, named 1 "alpha" true] :=
  ⟨hook_fresh compareOf comparator_compareOf overtaken, by decide +kernel⟩

end Hook

end TinyProbe.Web
