import TinyProbe.Web.Convergence
import TinyProbe.Web.Freshness

/-!
# The hook of the live page

The live page runs the hook: in every run it has what the hook has after a run of its own, in which
the answers and the events are those of the server (`page_mirrored`). What holds of the hook in every
run therefore holds of the page (`page_listed`).
-/

namespace TinyProbe.Web

open Live Servers Run
open TinyProbe.Stream

variable {F : Type}

/-- What the page and the hook both have. -/
structure View (F : Type) where
  snapshots : List (Snapshot F)
  updates : List (Update F)
  liveConnected : Bool
  connectionFailed : Bool
  initialLoadStatus : InitialLoadStatus
  error : Option String
  requestError : Option String
  openedRef : Bool
  connectionFailedRef : Bool
  eventRevisionRef : Nat
  serverEventRevisionsRef : Map Int Nat
  requestGenerationRef : Nat

def Hook.view (h : Hook F) : View F :=
  ⟨h.snapshots, h.updates, h.liveConnected, h.connectionFailed, h.initialLoadStatus, h.error,
    h.requestError, h.openedRef, h.connectionFailedRef, h.eventRevisionRef, h.serverEventRevisionsRef,
    h.requestGenerationRef⟩

/-- What the server sends of an event. -/
def eventData (event : Event F) : EventData F where
  type := some (match event.type with
    | .updated => "snapshot.updated"
    | .offline => "snapshot.offline")
  snapshot := some event.snapshot

private theorem parseSnapshotEvent_eventData (event : Event F) :
    parseSnapshotEvent (some (eventData event)) = some event.snapshot := by
  obtain ⟨type, snapshot⟩ := event
  cases type with
  | updated => simp [parseSnapshotEvent, eventData]
  | offline => simp [parseSnapshotEvent, eventData]

namespace Hook

variable {h : Hook F} {g : Nat}

private theorem underWay?_refresh (g : Nat) : h.refresh.underWay? g =
    if g = h.requestGenerationRef + 1 then
      some ⟨h.eventRevisionRef, h.received.length, false, false⟩
    else h.underWay? g := by
  rw [underWay?, requests_refresh]
  split
  next => rfl
  next => rfl

private theorem underWay?_settle {request : Request} (g' : Nat) :
    (h.settle g request).underWay? g' = if g' = g then none else h.underWay? g' := by
  by_cases hg : g' = g
  · simp [underWay?, settle, hg]
  · simp [underWay?, settle, hg]

end Hook

variable [Float64 F]

def Page.view (s : Page F) : View F :=
  ⟨s.snapshots, s.updates, s.liveConnected, s.connectionFailed, s.initialLoadStatus, s.error,
    s.requestError, s.openedRef, s.connectionFailedRef, s.eventRevisionRef, s.serverEventRevisionsRef,
    s.requestGenerationRef⟩

/-- Two views are equal when the fields are that the hook has. -/
theorem view_eq_iff {h : Hook F} {s : Page F} : h.view = s.view ↔
    h.snapshots = s.snapshots ∧ h.updates = s.updates ∧ h.liveConnected = s.liveConnected ∧
      h.connectionFailed = s.connectionFailed ∧ h.initialLoadStatus = s.initialLoadStatus ∧
      h.error = s.error ∧ h.requestError = s.requestError ∧ h.openedRef = s.openedRef ∧
      h.connectionFailedRef = s.connectionFailedRef ∧ h.eventRevisionRef = s.eventRevisionRef ∧
      h.serverEventRevisionsRef = s.serverEventRevisionsRef ∧
      h.requestGenerationRef = s.requestGenerationRef := by
  simp only [Hook.view, Page.view, View.mk.injEq]

/-- The page has what a mounted hook has, and the hook its requests that have not been answered. -/
structure Mirrors (h : Hook F) (s : Page F) : Prop where
  mounted : h.mountedRef = true
  view : h.view = s.view
  requests : ∀ g fetch, s.fetch? g = some fetch →
    fetch.progress = .sent ∨ fetch.progress = .reading →
      ∃ request, h.underWay? g = some request ∧ request.requestRevision = fetch.requestRevision ∧
        request.aborted = false

namespace Mirrors

variable {h : Hook F} {s s' : Page F} {localeCompare : String → String → Int} {g : Nat}
  {fetch fetch' : Fetch F}

/-- A step of the server, which the hook takes no notice of. -/
theorem server (hm : Mirrors h s) (hview : s'.view = s.view)
    (hfetch : ∀ g fetch, s'.fetch? g = some fetch →
      fetch.progress = .sent ∨ fetch.progress = .reading → ∃ old, s.fetch? g = some old ∧
        (old.progress = .sent ∨ old.progress = .reading) ∧
        old.requestRevision = fetch.requestRevision) : Mirrors h s' := by
  refine ⟨hm.mounted, hm.view.trans hview.symm, fun g fetch hg hopen => ?_⟩
  obtain ⟨old, hold, hopen', hrevision⟩ := hfetch g fetch hg hopen
  rw [← hrevision]
  exact hm.requests g old hold hopen'

/-- The page's `refresh` is the hook's. -/
theorem refresh (hm : Mirrors h s) : Mirrors h.refresh s.refresh := by
  have hview := view_eq_iff.mp hm.view
  refine ⟨hm.mounted, ?_, fun g fetch hfetch hopen => ?_⟩
  · simp [Hook.view, Page.view, Hook.refresh, Page.refresh, Page.setFetch, hview]
  · rw [Hook.underWay?_refresh]
    have hset := (Page.fetch?_setFetch g).symm.trans hfetch
    rw [← show h.requestGenerationRef + 1 = s.requestGenerationRef + 1 by simp [hview]] at hset
    split
    next hg =>
      rw [if_pos hg] at hset
      cases hset
      exact ⟨_, rfl, by simp [hview], rfl⟩
    next hg =>
      rw [if_neg hg] at hset
      exact hm.requests g fetch hset hopen

/-- Mounting sends the first request of both. -/
theorem mount (hm : Mirrors h s) :
    Mirrors (h.step localeCompare .mount) { s.refresh with connection := .connecting } := by
  have hmounted : Mirrors { h with mountedRef := true } s := ⟨rfl, hm.view, hm.requests⟩
  exact hmounted.refresh.server rfl fun g fetch hg hopen => ⟨fetch, hg, hopen, rfl⟩

/-- A step of `ListStatus`. -/
theorem goOn (hm : Mirrors h s) (hfetch : s.fetch? g = some fetch)
    (hopen : fetch.progress = .sent ∨ fetch.progress = .reading)
    (hrevision : fetch.requestRevision = fetch'.requestRevision) :
    Mirrors h (s.setFetch g fetch') := by
  refine hm.server rfl fun g' fetch'' hfetch' hopen' => ?_
  rw [Page.fetch?_setFetch] at hfetch'
  split at hfetch'
  next heq =>
    cases hfetch'
    exact ⟨fetch, heq ▸ hfetch, hopen, hrevision⟩
  next => exact ⟨fetch'', hfetch', hopen', rfl⟩

/-- A request that was answered or failed is settled. -/
theorem settle (hm : Mirrors h s) {request : Request} (hprogress : fetch.progress = .succeeded ∨
    fetch.progress = .failed) : Mirrors (h.settle g request) (s.setFetch g fetch) := by
  refine ⟨hm.mounted, hm.view, fun g' fetch' hfetch hopen => ?_⟩
  rw [Page.fetch?_setFetch] at hfetch
  rw [Hook.underWay?_settle]
  split at hfetch
  next hg =>
    cases hfetch
    rcases hprogress with hdone | hdone <;> rw [hdone] at hopen <;> simp at hopen
  next hg =>
    rw [if_neg hg]
    exact hm.requests g' fetch' hfetch hopen

/-- An answer that the page has read is the hook's, as the statuses are about distinct servers. -/
theorem respond (hm : Mirrors h s) (hfetch : s.fetch? g = some fetch)
    (hreading : fetch.progress = .reading)
    (hdistinct : Distinct (sortStatuses (fetch.readings.map Reading.snapshot))) :
    Mirrors (h.step localeCompare (.respond g ⟨_, hdistinct⟩)) (s.respond g fetch) := by
  have hview := view_eq_iff.mp hm.view
  obtain ⟨request, hunderWay, hrevision, _⟩ := hm.requests g fetch hfetch (Or.inr hreading)
  simp only [Hook.step, hunderWay]
  by_cases hg : g = s.requestGenerationRef
  · have hpage : s.respond g fetch =
        ({ s with
            initialLoadStatus := .success
            updates := s.updates ++ [.reconcile (sortStatuses (fetch.readings.map Reading.snapshot))
              fetch.requestRevision]
            requestError := none
            error := if s.error = some connectionError then s.error else none } : Page F).setFetch g
          { fetch with progress := .succeeded } := if_neg (not_not.mpr hg)
    have hhook : g = h.requestGenerationRef := by simp [hview, hg]
    rw [hpage, Hook.respond, if_neg (by simp [hm.mounted, ← hhook])]
    apply settle
    · refine ⟨hm.mounted, ?_, hm.requests⟩
      simp [Hook.view, Page.view, hview, hrevision]
    · exact Or.inl rfl
  · have hpage : s.respond g fetch = s.setFetch g { fetch with progress := .succeeded } := if_pos hg
    have hhook : g ≠ h.requestGenerationRef := by simp [hview, hg]
    rw [hpage, Hook.respond, if_pos (Or.inr hhook)]
    exact settle hm (Or.inl rfl)

/-- A request fails for both, when it is sent or when its answer is read. -/
theorem fail (hm : Mirrors h s) (hfetch : s.fetch? g = some fetch)
    (hopen : fetch.progress = .sent ∨ fetch.progress = .reading) (serverMessage : Option String) :
    Mirrors (h.step localeCompare (.fail g serverMessage)) (s.fail g fetch serverMessage) := by
  have hview := view_eq_iff.mp hm.view
  obtain ⟨request, hunderWay, _, haborted⟩ := hm.requests g fetch hfetch hopen
  simp only [Hook.step, hunderWay]
  by_cases hg : g = s.requestGenerationRef
  · have hpage : s.fail g fetch serverMessage =
        ({ s with
            initialLoadStatus := if s.initialLoadStatus = .success then s.initialLoadStatus else .error
            requestError := some (serverMessage.getD loadError)
            error := some (serverMessage.getD loadError) } : Page F).setFetch g
          { fetch with progress := .failed } := if_neg (not_not.mpr hg)
    have hhook : g = h.requestGenerationRef := by simp [hview, hg]
    rw [hpage, Hook.fail, if_neg (by simp [hm.mounted, haborted, ← hhook])]
    apply settle
    · refine ⟨hm.mounted, ?_, hm.requests⟩
      simp [Hook.view, Page.view, hview]
    · exact Or.inr rfl
  · have hpage : s.fail g fetch serverMessage = s.setFetch g { fetch with progress := .failed } :=
      if_pos hg
    have hhook : g ≠ h.requestGenerationRef := by simp [hview, hg]
    rw [hpage, Hook.fail, if_pos (Or.inr (Or.inr hhook))]
    exact settle hm (Or.inr rfl)

/-- An event that reaches the page is one that the hook hears. -/
theorem deliver (hm : Mirrors h s) (event : Event F) (next : Nat) :
    Mirrors (h.step localeCompare (.event (some (eventData event))))
      { s.handleSnapshot event.snapshot with next } := by
  have hview := view_eq_iff.mp hm.view
  simp only [Hook.step, Hook.handleSnapshot, parseSnapshotEvent_eventData, hm.mounted, if_true]
  refine ⟨rfl, ?_, hm.requests⟩
  simp [Hook.view, Page.view, Page.handleSnapshot, hview]

/-- Both hear that the connection is open. -/
theorem onopen (hm : Mirrors h s) :
    Mirrors (h.step localeCompare .onopen) { s.onopen with connection := .open } := by
  have hview := view_eq_iff.mp hm.view
  have hopened : Mirrors
      ({ h with
        liveConnected := true
        connectionFailed := false
        mountedRef := true
        error := if h.error = some connectionError then none else h.error } : Hook F)
      ({ s with
        liveConnected := true
        connectionFailed := false
        error := if s.error = some connectionError then none else s.error } : Page F) := by
    refine ⟨rfl, ?_, hm.requests⟩
    simp [Hook.view, Page.view, hview]
  have hflag : (h.openedRef || h.connectionFailedRef) = (s.openedRef || s.connectionFailedRef) := by
    simp [hview]
  have hset : ∀ {h' : Hook F} {s' : Page F}, Mirrors h' s' →
      Mirrors { h' with openedRef := true, connectionFailedRef := false }
        { s' with openedRef := true, connectionFailedRef := false, connection := .open } := by
    intro h' s' hm'
    have hview' := view_eq_iff.mp hm'.view
    refine ⟨hm'.mounted, ?_, hm'.requests⟩
    simp [Hook.view, Page.view, hview']
  simp only [Hook.step, Hook.onopen, hm.mounted, Bool.not_true, Bool.false_eq_true, if_false,
    Page.onopen, hflag]
  split
  next => exact hset hopened.refresh
  next => exact hset hopened

/-- Both hear that it failed. -/
theorem onerror (hm : Mirrors h s) : Mirrors (h.step localeCompare .onerror)
    { s.onerror with connection := .connecting, start := 0, next := 0 } := by
  have hview := view_eq_iff.mp hm.view
  simp only [Hook.step, Hook.onerror, hm.mounted, Bool.not_true, Bool.false_eq_true, if_false]
  refine ⟨rfl, ?_, hm.requests⟩
  simp [Hook.view, Page.view, Page.onerror, hview]

/-- A render of the page runs the first of the hook's updates. -/
theorem render (hm : Mirrors h s) {u : Update F} {updates : List (Update F)}
    (hupdates : s.updates = u :: updates) : Mirrors (h.step localeCompare .render)
      { s with
        snapshots := u.apply localeCompare s.serverEventRevisionsRef s.snapshots
        updates } := by
  have hview := view_eq_iff.mp hm.view
  have hhook : h.updates = u :: updates := hview.2.1.trans hupdates
  simp only [Hook.step, hhook]
  refine ⟨hm.mounted, ?_, hm.requests⟩
  simp [Hook.view, Page.view, hview]

/-- A step of the hook is a run of it. -/
theorem after {b : Hook.Action F} (hm : Mirrors (h.step localeCompare b) s) :
    ∃ bs, Mirrors (run (Hook.step localeCompare) h bs) s :=
  ⟨[b], hm⟩

/-- The hook follows every step of the page. -/
theorem step {servers : List Server} (hm : Mirrors h s) (hs : s.Inv servers) (a : Page.Action F) :
    ∃ bs, Mirrors (run (Hook.step localeCompare) h bs) (s.step localeCompare a) := by
  unfold Page.step
  split
  next a =>
    refine ⟨[], ?_⟩
    split
    next => exact hm.server rfl fun g fetch hg hopen => ⟨fetch, hg, hopen, rfl⟩
    next => exact hm
  next =>
    split
    next => exact hm.mount.after
    next => exact ⟨[], hm⟩
  next =>
    split
    next => exact ⟨[], hm⟩
    next => exact Mirrors.after (b := .refresh) hm.refresh
  next g =>
    refine ⟨[], ?_⟩
    split
    next hfetch => exact hm.goOn hfetch (Or.inl rfl) rfl
    next => exact hm
  next g =>
    refine ⟨[], ?_⟩
    split
    next hfetch => exact hm.goOn hfetch (Or.inr rfl) rfl
    next => exact hm
  next g =>
    split
    next hfetch =>
      have hdistinct := ((hs.honest _ _ hfetch).answer hs.nodup rfl rfl).1
      exact (hm.respond hfetch rfl hdistinct).after
    next => exact ⟨[], hm⟩
  next g serverMessage =>
    split
    next hfetch =>
      split
      next hopen => exact (hm.fail hfetch hopen serverMessage).after
      next => exact ⟨[], hm⟩
    next => exact ⟨[], hm⟩
  next =>
    refine ⟨[], ?_⟩
    split
    next => exact hm.server rfl fun g fetch hg hopen => ⟨fetch, hg, hopen, rfl⟩
    next => exact hm
  next =>
    split
    next => exact hm.onopen.after
    next => exact ⟨[], hm⟩
  next =>
    split
    next =>
      split
      next => exact ⟨[], hm⟩
      next event _ => exact (hm.deliver event _).after
    next => exact ⟨[], hm⟩
  next =>
    split
    next => exact ⟨[], hm⟩
    next => exact hm.onerror.after
  next =>
    split
    next => exact ⟨[], hm⟩
    next hupdates => exact (hm.render hupdates).after

end Mirrors

/-- The page runs the hook. -/
theorem page_mirrored (localeCompare : String → String → Int) (tables : Tables F)
    (as : List (Page.Action F)) :
    ∃ bs, Mirrors (run (Hook.step localeCompare) Hook.new bs)
      (run (Page.step localeCompare) (Page.initial tables) as) := by
  induction as using List.reverseRecOn with
  | nil => exact ⟨[], rfl, rfl, fun g fetch h => by cases h⟩
  | append_singleton as a ih =>
    obtain ⟨bs, hm⟩ := ih
    rw [run_snoc]
    obtain ⟨bs', hm'⟩ : ∃ bs', Mirrors (run (Hook.step localeCompare) _ bs')
        (Page.step localeCompare _ a) := hm.step (Page.inv_run tables as) a
    exact ⟨bs ++ bs', (run_append bs bs').symm ▸ hm'⟩

/-- The list of the page has every server once, and is in the order of `sortSnapshots`. -/
theorem page_listed {localeCompare : String → String → Int} (hcompare : Comparator localeCompare)
    (tables : Tables F) (as : List (Page.Action F)) :
    Distinct (run (Page.step localeCompare) (Page.initial tables) as).snapshots ∧
      (run (Page.step localeCompare) (Page.initial tables) as).snapshots.Pairwise
        (Precedes localeCompare) := by
  obtain ⟨bs, hm⟩ := page_mirrored localeCompare tables as
  have hlisted := (Hook.inv_run hcompare bs).listed
  rw [← show _ = (run (Page.step localeCompare) (Page.initial tables) as).snapshots from
    congrArg View.snapshots hm.view]
  exact ⟨hlisted.distinct, hlisted.ordered⟩

end TinyProbe.Web
