import TinyProbe.Web.LivePage

/-!
# The live page and the server

Every snapshot the page shows of a server is what the stream of events has told of it up to some
place, and of the events behind that place none about the server has been delivered (`Traced`). When
all are delivered, the snapshot is the server's own, unless the events in question were published
before the connection subscribed. Then nobody was told, and the page depends on its last fetch.

The revisions are what keeps an answer from undoing an event: a server's revision is behind that of a
request exactly when its last event was delivered before the request was sent, and then the request
has read it.
-/

namespace TinyProbe.Web

open Live Servers Run
open TinyProbe.Stream

variable {F : Type} [Float64 F]

/-! ## One server -/

/-- What is shown of a server, given the events so far, the part of them that the connection delivers
and has delivered, the number of events the page has had, and the server's revision. -/
structure Traced (server : Server) (log : List (Event F)) (start next total revision : Nat)
    (shown : Option (Snapshot F)) : Prop where
  place : ∀ snapshot, shown = some snapshot →
    ∃ seen, seen ≤ log.length ∧ snapshot = lastTold server (log.take seen) ∧
      Quiet Event.serverID server.id log (max seen start) next
  known : 0 < revision → shown.isSome
  revised : ∀ n event, start ≤ n → n < next → log[n]? = some event → event.serverID = server.id →
    n + total + 1 ≤ revision + next
  heard : total + start < revision + next → ¬ Quiet Event.serverID server.id log start next
  le : revision ≤ total

/-- What the request of this revision has read of a server, given the same. -/
structure Reading.Honest (server : Server) (log : List (Event F))
    (start next total requestRevision : Nat) (reading : Reading F) : Prop where
  seen_le : reading.seen ≤ log.length
  told : reading.snapshot = lastTold server (log.take reading.seen)
  /-- The events that the page had when it sent the request were there to be read. -/
  after : next + requestRevision ≤ reading.seen + total ∨ requestRevision + next ≤ total + start

section Server

variable {server : Server} {log log' : List (Event F)} {start next total revision : Nat}
  {requestRevision : Nat} {shown : Option (Snapshot F)} {reading : Reading F} {event : Event F}

theorem lastTold_take (hgrows : log <+: log') {seen : Nat} (hseen : seen ≤ log.length) :
    lastTold server (log'.take seen) = lastTold server (log.take seen) := by
  obtain ⟨new, rfl⟩ := hgrows
  rw [List.take_append_of_le_length hseen]

theorem Traced.grow (h : Traced server log start next total revision shown)
    (hgrows : log <+: log') (hnext : next ≤ log.length) :
    Traced server log' start next total revision shown := by
  have hquiet : ∀ i, Quiet Event.serverID server.id log' i next ↔
      Quiet Event.serverID server.id log i next := by
    obtain ⟨new, rfl⟩ := hgrows
    exact fun i => quiet_append hnext
  refine ⟨?_, h.known, ?_, ?_, h.le⟩
  · intro snapshot hshown
    obtain ⟨seen, hseen, htold, hbehind⟩ := h.place snapshot hshown
    exact ⟨seen, Nat.le_trans hseen hgrows.length_le, htold.trans (lastTold_take hgrows hseen).symm,
      (hquiet _).mpr hbehind⟩
  · intro n event hstart hlt hget hid
    have hlog : log[n]? = some event := by
      obtain ⟨new, rfl⟩ := hgrows
      rwa [List.getElem?_append_left (Nat.lt_of_lt_of_le hlt hnext)] at hget
    exact h.revised n event hstart hlt hlog hid
  · intro hlt hall
    exact h.heard hlt ((hquiet _).mp hall)

/-- A connection that has just been made or lost has delivered nothing. -/
theorem Traced.restart (h : Traced server log start next total revision shown) (n : Nat) :
    Traced server log n n total revision shown := by
  refine ⟨?_, h.known, ?_, ?_, h.le⟩
  · intro snapshot hshown
    obtain ⟨seen, hseen, htold, _⟩ := h.place snapshot hshown
    exact ⟨seen, hseen, htold, (quiet_self n).mono (Nat.le_max_right _ _) (Nat.le_refl _)⟩
  · intro m event hle hlt
    exact absurd hlt (Nat.not_lt_of_le hle)
  · intro hlt
    have := h.le
    omega

/-- The page shows what the event says. -/
theorem traced_deliver (hwindow : start ≤ next) (hget : log[next]? = some event)
    (hid : event.serverID = server.id) :
    Traced server log start (next + 1) (total + 1) (total + 1) (some event.snapshot) := by
  have hlt : next < log.length := (List.getElem?_eq_some_iff.mp hget).1
  refine ⟨?_, fun _ => rfl, ?_, ?_, Nat.le_refl _⟩
  · intro snapshot hshown
    cases hshown
    refine ⟨next + 1, hlt, ?_, (quiet_self _).mono (Nat.le_max_left _ _) (Nat.le_refl _)⟩
    have hlast : lastOf Event.serverID server.id (log.take (next + 1)) = some event := by
      rw [lastOf_take_succ hget, if_pos hid]
    rw [lastTold_some hlast]
  · intro n event _ hn
    omega
  · intro _ hquiet
    exact hquiet next event hwindow (Nat.lt_succ_self next) hget hid

/-- An event about another server changes nothing. -/
theorem Traced.deliver_other (h : Traced server log start next total revision shown)
    (hget : log[next]? = some event) (hid : event.serverID ≠ server.id) :
    Traced server log start (next + 1) (total + 1) revision shown := by
  have hquiet : ∀ i, Quiet Event.serverID server.id log i next →
      Quiet Event.serverID server.id log i (next + 1) := by
    intro i hi n other hin hn hother
    rcases Nat.lt_succ_iff_lt_or_eq.mp hn with hn | rfl
    · exact hi n other hin hn hother
    · cases hget.symm.trans hother
      exact hid
  refine ⟨?_, h.known, ?_, ?_, Nat.le_succ_of_le h.le⟩
  · intro snapshot hshown
    obtain ⟨seen, hseen, htold, hbehind⟩ := h.place snapshot hshown
    exact ⟨seen, hseen, htold, hquiet _ hbehind⟩
  · intro n other hstart hn hother hown
    rcases Nat.lt_succ_iff_lt_or_eq.mp hn with hn | rfl
    · have := h.revised n other hstart hn hother hown
      omega
    · cases hget.symm.trans hother
      exact absurd hown hid
  · intro hlt hall
    exact h.heard (by omega) (hall.mono (Nat.le_refl _) (Nat.le_succ _))

/-- **An answer undoes no event**: it is shown unless an event has come since the request was sent,
and no event that it has not seen was delivered. -/
theorem Traced.answer (h : Traced server log start next total revision shown)
    (hreading : reading.Honest server log start next total requestRevision) :
    Traced server log start next total revision
      (if requestRevision < revision then shown.or (some reading.snapshot)
        else some reading.snapshot) := by
  split
  next hlt =>
    obtain ⟨snapshot, hshown⟩ := Option.isSome_iff_exists.mp
      (h.known (Nat.lt_of_le_of_lt (Nat.zero_le _) hlt))
    rw [hshown, Option.some_or, ← hshown]
    exact h
  next hnot =>
    refine ⟨?_, fun _ => rfl, h.revised, h.heard, h.le⟩
    intro snapshot hshown
    cases hshown
    refine ⟨reading.seen, hreading.seen_le, hreading.told, ?_⟩
    intro n event hn hlt hget hid
    have hrevised := h.revised n event (Nat.le_trans (Nat.le_max_right _ _) hn) hlt hget hid
    have hseen := Nat.le_trans (Nat.le_max_left _ _) hn
    have hstart := Nat.le_trans (Nat.le_max_right _ _) hn
    rcases hreading.after with hafter | hafter <;> omega

theorem Reading.Honest.grow (h : reading.Honest server log start next total requestRevision)
    (hgrows : log <+: log') :
    reading.Honest server log' start next total requestRevision :=
  ⟨Nat.le_trans h.seen_le hgrows.length_le, h.told.trans (lastTold_take hgrows h.seen_le).symm,
    h.after⟩

theorem Reading.Honest.deliver (h : reading.Honest server log start next total requestRevision) :
    reading.Honest server log start (next + 1) (total + 1) requestRevision := by
  refine ⟨h.seen_le, h.told, ?_⟩
  rcases h.after with hafter | hafter
  · exact Or.inl (by omega)
  · exact Or.inr (by omega)

theorem Reading.Honest.restart (h : reading.Honest server log start next total requestRevision)
    (hle : requestRevision ≤ total) (n : Nat) :
    reading.Honest server log n n total requestRevision :=
  ⟨h.seen_le, h.told, Or.inr (Nat.add_le_add_right hle n)⟩

end Server

/-! ## The page -/

/-- What is true of a fetch: it has read the servers it has not still to read. -/
structure Fetch.Honest (servers : List Server) (log : List (Event F)) (start next total : Nat)
    (fetch : Fetch F) : Prop where
  le : fetch.requestRevision ≤ total
  todo : ∀ server ∈ fetch.todo, server ∈ servers
  covers : fetch.progress = .reading ∨ fetch.progress = .succeeded →
    fetch.readings.map (fun reading => reading.snapshot.serverID) ++ fetch.todo.map Server.id =
      servers.map Server.id
  complete : fetch.progress = .succeeded → fetch.todo = []
  readings : ∀ reading ∈ fetch.readings, ∀ server ∈ servers,
    reading.snapshot.serverID = server.id →
      reading.Honest server log start next total fetch.requestRevision

/-- The answer `ListStatus` has put together. -/
theorem Fetch.Honest.answer {servers : List Server} {log : List (Event F)}
    {start next total : Nat} {fetch : Fetch F} (h : fetch.Honest servers log start next total)
    (hnodup : (servers.map Server.id).Nodup)
    (hreading : fetch.progress = .reading) (htodo : fetch.todo = []) :
    Distinct (sortStatuses (fetch.readings.map Reading.snapshot)) ∧
      (∀ server ∈ servers, ∃ reading ∈ fetch.readings,
        reading.snapshot.serverID = server.id) ∧
      ∀ reading ∈ fetch.readings,
        snapshotOf? reading.snapshot.serverID
          (sortStatuses (fetch.readings.map Reading.snapshot)) = some reading.snapshot := by
  have hids := h.covers (Or.inl hreading)
  rw [htodo, List.map_nil, List.append_nil] at hids
  have hperm : (sortStatuses (fetch.readings.map Reading.snapshot)).Perm
      (fetch.readings.map Reading.snapshot) := List.perm_insertionSort _ _
  have hdistinct : Distinct (sortStatuses (fetch.readings.map Reading.snapshot)) := by
    refine Distinct.perm ?_ hperm
    rw [Distinct, List.map_map]
    exact hids ▸ hnodup
  refine ⟨hdistinct, ?_, ?_⟩
  · intro server hserver
    have hmem : server.id ∈ fetch.readings.map fun reading => reading.snapshot.serverID :=
      hids ▸ List.mem_map_of_mem hserver
    exact List.mem_map.mp hmem
  · intro reading hmem
    exact (snapshotOf?_eq_some_iff hdistinct).mpr
      ⟨hperm.mem_iff.mpr (List.mem_map_of_mem hmem), rfl⟩

namespace Page

/-- What the page shows of a server once React has run everything. -/
def shown (s : Page F) (serverID : Int) : Option (Snapshot F) :=
  s.updates.foldl
    (fun shown u => u.onServer serverID (revisionOf s.serverEventRevisionsRef serverID) shown)
    (snapshotOf? serverID s.snapshots)

/-- The invariant of the page. -/
structure Inv (servers : List Server) (s : Page F) : Prop where
  serves : Coordinator.Serves servers s.server
  window : s.start ≤ s.next
  next_le : s.next ≤ s.server.published.length
  had : s.next ≤ s.start + s.eventRevisionRef
  distinct : Distinct s.snapshots
  updates : ∀ u ∈ s.updates, u.Distinct
  honest : ∀ requestGeneration fetch, s.fetch? requestGeneration = some fetch →
    fetch.Honest servers s.server.stream s.start s.next s.eventRevisionRef
  traced : ∀ server ∈ servers, Traced server s.server.stream s.start s.next s.eventRevisionRef
    (revisionOf s.serverEventRevisionsRef server.id) (s.shown server.id)
  opened : s.connection = .open → s.connectionFailedRef = false
  /-- Before its first connection is open the page has had no event. -/
  first : s.connectionFailedRef = false → s.connection ≠ .open → s.eventRevisionRef = 0
  /-- The events since the most recently started fetch are all of this connection. -/
  recent : s.connectionFailedRef = false → ∀ fetch, s.latest? = some fetch →
    s.eventRevisionRef + s.start ≤ fetch.requestRevision + s.next
  /-- The most recently started fetch is shown but for events of this connection. -/
  answered : s.connectionFailedRef = false → ∀ fetch, s.latest? = some fetch →
    fetch.progress = .succeeded → ∀ server ∈ servers, ∀ reading ∈ fetch.readings,
      reading.snapshot.serverID = server.id →
        (¬ Quiet Event.serverID server.id s.server.stream s.start s.next) ∨
          s.shown server.id = some reading.snapshot

section Steps

variable {s : Page F} {servers : List Server} {requestGeneration : Nat} {fetch : Fetch F}
  {localeCompare : String → String → Int}

theorem fetch?_setFetch (other : Nat) :
    (s.setFetch requestGeneration fetch).fetch? other =
      if other = requestGeneration then some fetch else s.fetch? other :=
  Map.lookup_insert _ _ _ _

theorem Inv.next_le_stream (hs : Inv servers s) : s.next ≤ s.server.stream.length := by
  rw [Coordinator.stream, List.length_append]
  exact Nat.le_trans hs.next_le (Nat.le_add_right _ _)

theorem Inv.nodup (hs : Inv servers s) : (servers.map Server.id).Nodup :=
  hs.serves.registered ▸ s.server.registry.nodup_servers

theorem inv_initial (tables : Tables F) : Inv tables.registry.servers (initial tables) where
  serves := Coordinator.serves_initial tables
  window := Nat.le_refl _
  next_le := Nat.le_refl _
  had := Nat.le_refl _
  distinct := List.nodup_nil
  updates u h := by cases h
  honest g fetch h := by cases h
  traced server _ := by
    refine ⟨?_, ?_, ?_, ?_, Nat.le_refl _⟩
    · intro snapshot h
      cases h
    · intro h
      exact absurd h (Nat.lt_irrefl 0)
    · intro n event _ hlt
      exact absurd hlt (Nat.not_lt_zero n)
    · intro h
      exact absurd h (Nat.lt_irrefl 0)
  opened h := by cases h
  first _ _ := rfl
  recent _ fetch h := by cases h
  answered _ fetch h := by cases h

/-- A step of the server. -/
theorem Inv.server (hs : Inv servers s) {a : Live.Action F} (hkeeps : a.keepsServers) :
    Inv servers { s with server := s.server.step a } := by
  have hgrows := hs.serves.stream_step a
  have hpublished := Coordinator.published_step (Coordinator.step_step s.server a)
  have hnext := hs.next_le_stream
  refine ⟨hs.serves.step hkeeps, hs.window, Nat.le_trans hs.next_le hpublished.length_le,
    hs.had, hs.distinct, hs.updates, ?_, ?_, hs.opened, hs.first, hs.recent, ?_⟩
  · intro g fetch hfetch
    have hhonest := hs.honest g fetch hfetch
    exact ⟨hhonest.le, hhonest.todo, hhonest.covers, hhonest.complete,
      fun reading hreading server hserver hid =>
        (hhonest.readings reading hreading server hserver hid).grow hgrows⟩
  · exact fun server hserver => (hs.traced server hserver).grow hgrows hnext
  · intro hfailed fetch hlatest hsucceeded server hserver reading hreading hid
    refine (hs.answered hfailed fetch hlatest hsucceeded server hserver reading hreading hid).imp_left
      fun hloud hquiet => hloud ?_
    obtain ⟨new, hnew⟩ := hgrows
    rw [← hnew] at hquiet
    exact (quiet_append hnext).mp hquiet

theorem Inv.honest_setFetch (hs : Inv servers s)
    (hfetch : fetch.Honest servers s.server.stream s.start s.next s.eventRevisionRef) :
    ∀ other fetch', (s.setFetch requestGeneration fetch).fetch? other = some fetch' →
      fetch'.Honest servers s.server.stream s.start s.next s.eventRevisionRef := by
  intro other fetch' h
  rw [fetch?_setFetch] at h
  split at h
  next =>
    cases h
    exact hfetch
  next => exact hs.honest other fetch' h

/-- A fetch that goes on, without an answer to the page. -/
theorem Inv.setFetch {old : Fetch F} (hs : Inv servers s)
    (hold : s.fetch? requestGeneration = some old)
    (hrevision : fetch.requestRevision = old.requestRevision)
    (hfetch : fetch.Honest servers s.server.stream s.start s.next s.eventRevisionRef)
    (hanswer : requestGeneration = s.requestGenerationRef → fetch.progress ≠ .succeeded) :
    Inv servers (s.setFetch requestGeneration fetch) := by
  have hlatest : ∀ fetch', (s.setFetch requestGeneration fetch).latest? = some fetch' →
      (requestGeneration = s.requestGenerationRef ∧ fetch' = fetch) ∨ s.latest? = some fetch' := by
    intro fetch' h
    rw [latest?, fetch?_setFetch] at h
    split at h
    next heq =>
      cases h
      exact Or.inl ⟨heq.symm, rfl⟩
    next => exact Or.inr h
  refine ⟨hs.serves, hs.window, hs.next_le, hs.had, hs.distinct, hs.updates, hs.honest_setFetch hfetch,
    hs.traced, hs.opened, hs.first, ?_, ?_⟩
  · intro hfailed fetch' h
    rcases hlatest fetch' h with ⟨rfl, rfl⟩ | h
    · rw [hrevision]
      exact hs.recent hfailed old hold
    · exact hs.recent hfailed fetch' h
  · intro hfailed fetch' h hsucceeded
    rcases hlatest fetch' h with ⟨heq, rfl⟩ | h
    · exact absurd hsucceeded (hanswer heq)
    · exact hs.answered hfailed fetch' h hsucceeded

theorem latest?_refresh (s : Page F) :
    s.refresh.latest? = some ⟨s.eventRevisionRef, .sent, [], []⟩ :=
  (fetch?_setFetch _).trans (if_pos rfl)

/-- A call of `refresh`. -/
theorem Inv.refresh (hs : Inv servers s) : Inv servers s.refresh := by
  refine ⟨hs.serves, hs.window, hs.next_le, hs.had, hs.distinct, hs.updates, ?_, hs.traced,
    hs.opened, hs.first, ?_, ?_⟩
  · refine hs.honest_setFetch ⟨Nat.le_refl _, ?_, ?_, fun _ => rfl, ?_⟩
    · intro server h
      cases h
    · rintro (h | h) <;> cases h
    · intro reading h
      cases h
  · intro _ fetch h
    cases (latest?_refresh s).symm.trans h
    exact Nat.add_le_add_left hs.window _
  · intro _ fetch h hsucceeded
    cases (latest?_refresh s).symm.trans h
    cases hsucceeded

/-- `ListStatus` lists the servers. -/
theorem Inv.list (hs : Inv servers s) {requestRevision : Nat} {todo : List Server}
    {readings : List (Reading F)}
    (hfetch : s.fetch? requestGeneration = some ⟨requestRevision, .sent, todo, readings⟩) :
    Inv servers (s.setFetch requestGeneration
      ⟨requestRevision, .reading, Service.list s.server.registry, []⟩) := by
  have hlist : Service.list s.server.registry = servers := hs.serves.registered
  rw [hlist]
  refine hs.setFetch hfetch rfl ⟨(hs.honest _ _ hfetch).le, fun _ h => h, fun _ => rfl, ?_, ?_⟩ ?_
  · intro h
    cases h
  · intro reading h
    cases h
  · intro _ h
    cases h

/-- `ListStatus` reads a server. -/
theorem Inv.read (hs : Inv servers s) {requestRevision : Nat} {server : Server}
    {todo : List Server} {readings : List (Reading F)}
    (hfetch : s.fetch? requestGeneration =
      some ⟨requestRevision, .reading, server :: todo, readings⟩) :
    Inv servers (s.setFetch requestGeneration
      ⟨requestRevision, .reading, todo,
        readings ++ [⟨snapshotFor s.server.store server, s.server.stream.length⟩]⟩) := by
  have hhonest := hs.honest _ _ hfetch
  have hserver : server ∈ servers := hhonest.todo server List.mem_cons_self
  have hread := hs.serves.snapshotFor_eq hserver
  have hid : (snapshotFor s.server.store server).serverID = server.id := by
    rw [hread]
    exact lastTold_serverID
  refine hs.setFetch hfetch rfl ⟨hhonest.le, ?_, ?_, ?_, ?_⟩ ?_
  · exact fun other hother => hhonest.todo other (List.mem_cons_of_mem _ hother)
  · intro _
    have hcovers := hhonest.covers (Or.inl rfl)
    rw [List.map_append, List.map_singleton, hid, List.append_assoc]
    exact hcovers
  · intro h
    cases h
  · intro reading hreading other hother hsame
    rcases List.mem_append.mp hreading with hreading | hreading
    · exact hhonest.readings reading hreading other hother hsame
    · obtain rfl := List.mem_singleton.mp hreading
      obtain rfl : server = other :=
        List.inj_on_of_nodup_map hs.nodup hserver hother (hid.symm.trans hsame)
      refine ⟨Nat.le_refl _, ?_, Or.inl (Nat.add_le_add hs.next_le_stream hhonest.le)⟩
      rw [List.take_length]
      exact hread
  · intro _ h
    cases h

/-- A request fails. -/
theorem Inv.fail (hs : Inv servers s) (hfetch : s.fetch? requestGeneration = some fetch)
    (serverMessage : Option String) :
    Inv servers (s.fail requestGeneration fetch serverMessage) := by
  have hhonest := hs.honest _ _ hfetch
  have hset : Inv servers (s.setFetch requestGeneration { fetch with progress := .failed }) := by
    refine hs.setFetch hfetch rfl ⟨hhonest.le, hhonest.todo, ?_, ?_, hhonest.readings⟩ ?_
    · rintro (h | h) <;> cases h
    · intro h
      cases h
    · intro _ h
      cases h
  unfold Page.fail
  dsimp only
  split
  next => exact hset
  next =>
    exact ⟨hset.serves, hset.window, hset.next_le, hset.had, hset.distinct, hset.updates, hset.honest,
      hset.traced, hset.opened, hset.first, hset.recent, hset.answered⟩

theorem shown_push (s : Page F) (u : Update F) (id : Int) :
    ({ s with updates := s.updates ++ [u] } : Page F).shown id =
      u.onServer id (revisionOf s.serverEventRevisionsRef id) (s.shown id) := by
  simp only [shown, List.foldl_append, List.foldl_cons, List.foldl_nil]

/-- An answer arrives. -/
theorem Inv.respond (hs : Inv servers s) (hfetch : s.fetch? requestGeneration = some fetch)
    (hreading : fetch.progress = .reading) (htodo : fetch.todo = []) :
    Inv servers (s.respond requestGeneration fetch) := by
  have hhonest := hs.honest _ _ hfetch
  have hfetched : ({ fetch with progress := .succeeded } : Fetch F).Honest servers s.server.stream
      s.start s.next s.eventRevisionRef :=
    ⟨hhonest.le, hhonest.todo, fun _ => hhonest.covers (Or.inl hreading), fun _ => htodo,
      hhonest.readings⟩
  obtain ⟨hdistinct, hcovers, hfound⟩ := hhonest.answer hs.nodup hreading htodo
  unfold Page.respond
  dsimp only
  split
  next hne => exact hs.setFetch hfetch rfl hfetched fun heq => absurd heq hne
  next heq =>
    obtain rfl : requestGeneration = s.requestGenerationRef := not_not.mp heq
    have hshown : ∀ server ∈ servers, ∀ reading ∈ fetch.readings,
        reading.snapshot.serverID = server.id →
          (Update.reconcile (sortStatuses (fetch.readings.map Reading.snapshot))
            fetch.requestRevision).onServer server.id
              (revisionOf s.serverEventRevisionsRef server.id) (s.shown server.id) =
            if fetch.requestRevision < revisionOf s.serverEventRevisionsRef server.id then
              (s.shown server.id).or (some reading.snapshot)
            else some reading.snapshot := by
      intro server _ reading hmem hid
      rw [Update.onServer, ← hid, hfound reading hmem]
    refine ⟨hs.serves, hs.window, hs.next_le, hs.had, hs.distinct, ?_, hs.honest_setFetch hfetched, ?_,
      hs.opened, hs.first, ?_, ?_⟩
    · exact List.forall_mem_append.mpr ⟨hs.updates, List.forall_mem_singleton.mpr hdistinct⟩
    · intro server hserver
      obtain ⟨reading, hmem, hid⟩ := hcovers server hserver
      have htraced := (hs.traced server hserver).answer
        (hhonest.readings reading hmem server hserver hid)
      rw [← hshown server hserver reading hmem hid] at htraced
      refine (congrArg _ ?_).mpr htraced
      exact shown_push s _ _
    · intro hfailed fetch' h
      cases (((fetch?_setFetch _).trans (if_pos rfl)).symm.trans h :)
      exact hs.recent hfailed fetch hfetch
    · intro hfailed fetch' h _ server hserver reading hmem hid
      cases (((fetch?_setFetch _).trans (if_pos rfl)).symm.trans h :)
      have hrecent := hs.recent hfailed fetch hfetch
      by_cases hlt : fetch.requestRevision < revisionOf s.serverEventRevisionsRef server.id
      · exact Or.inl ((hs.traced server hserver).heard (by omega))
      · apply Or.inr
        apply (shown_push s _ _).trans
        exact (hshown server hserver reading hmem hid).trans (if_neg hlt)

theorem Inv.mount (hs : Inv servers s) (hclosed : s.connection = .closed) :
    Inv servers { s.refresh with connection := .connecting } := by
  have hr := hs.refresh
  refine ⟨hr.serves, hr.window, hr.next_le, hr.had, hr.distinct, hr.updates, hr.honest, hr.traced, ?_, ?_,
    hr.recent, hr.answered⟩
  · intro h
    cases h
  · intro hfailed _
    exact hs.first hfailed (by rw [hclosed]; exact Connection.noConfusion)

/-- What has been delivered is forgotten when a connection is made or lost. -/
theorem Inv.honest_restart (hs : Inv servers s) (n : Nat) :
    ∀ other fetch, s.fetch? other = some fetch →
      fetch.Honest servers s.server.stream n n s.eventRevisionRef := by
  intro other fetch h
  have hhonest := hs.honest other fetch h
  exact ⟨hhonest.le, hhonest.todo, hhonest.covers, hhonest.complete,
    fun reading hreading server hserver hid =>
      (hhonest.readings reading hreading server hserver hid).restart hhonest.le n⟩

/-- The handler subscribes. -/
theorem Inv.subscribe (hs : Inv servers s) (hconnecting : s.connection = .connecting) :
    Inv servers
      { s with
        connection := .subscribed
        start := s.server.published.length
        next := s.server.published.length } := by
  have hnot : s.connection ≠ .open := by
    rw [hconnecting]
    exact Connection.noConfusion
  refine ⟨hs.serves, Nat.le_refl _, Nat.le_refl _, Nat.le_add_right _ _, hs.distinct, hs.updates,
    hs.honest_restart _, fun server hserver => (hs.traced server hserver).restart _, ?_, ?_, ?_, ?_⟩
  · intro h
    cases h
  · intro hfailed _
    exact hs.first hfailed hnot
  · intro hfailed fetch _
    have hfirst : s.eventRevisionRef = 0 := hs.first hfailed hnot
    show s.eventRevisionRef + _ ≤ _
    rw [hfirst, Nat.zero_add]
    exact Nat.le_add_left _ _
  · intro hfailed fetch hlatest hsucceeded server hserver reading hreading hid
    -- the page has had no event yet, so it shows what the fetch has read
    have hempty : s.next = s.start := by
      have hhad := hs.had
      rw [hs.first hfailed hnot, Nat.add_zero] at hhad
      exact Nat.le_antisymm hhad hs.window
    refine (hs.answered hfailed fetch hlatest hsucceeded server hserver reading hreading
      hid).imp_left fun hloud => absurd ?_ hloud
    rw [hempty]
    exact quiet_self _

/-- The browser learns that the stream is open. -/
theorem Inv.onopen (hs : Inv servers s) : Inv servers { s.onopen with connection := .open } := by
  unfold Page.onopen
  dsimp only
  split
  next =>
    have hr := hs.refresh
    refine ⟨hr.serves, hr.window, hr.next_le, hr.had, hr.distinct, hr.updates, hr.honest, hr.traced,
      fun _ => rfl, fun _ h => absurd rfl h, ?_, ?_⟩
    · intro _ fetch h
      cases (latest?_refresh s).symm.trans h
      exact Nat.add_le_add_left hs.window _
    · intro _ fetch h hsucceeded
      cases (latest?_refresh s).symm.trans h
      cases hsucceeded
  next hkeep =>
    have hfailed : s.connectionFailedRef = false :=
      (Bool.or_eq_false_iff.mp (Bool.not_eq_true _ ▸ hkeep)).2
    exact ⟨hs.serves, hs.window, hs.next_le, hs.had, hs.distinct, hs.updates, hs.honest, hs.traced,
      fun _ => rfl, fun _ h => absurd rfl h, fun _ => hs.recent hfailed,
      fun _ => hs.answered hfailed⟩

theorem revisionOf_handle (s : Page F) (snapshot : Snapshot F) (id : Int) :
    revisionOf (s.handleSnapshot snapshot).serverEventRevisionsRef id =
      if id = snapshot.serverID then s.eventRevisionRef + 1
      else revisionOf s.serverEventRevisionsRef id := by
  unfold revisionOf Page.handleSnapshot
  rw [Map.lookup_insert]
  split
  next => rfl
  next => rfl

/-- An event replaces what is shown of its server, whatever React has still to run. -/
theorem shown_handle (s : Page F) (snapshot : Snapshot F) (id : Int) :
    (s.handleSnapshot snapshot).shown id =
      if snapshot.serverID = id then some snapshot else s.shown id := by
  apply (shown_push { s.handleSnapshot snapshot with updates := s.updates } _ id).trans
  show (if snapshot.serverID = id then some snapshot else _) = _
  split
  next => rfl
  next hid =>
    unfold shown
    rw [revisionOf_handle, if_neg fun heq => hid heq.symm]
    rfl

/-- The next event arrives. -/
theorem Inv.deliver (hs : Inv servers s) (hopen : s.connection = .open) {event : Event F}
    (hget : s.server.published[s.next]? = some event) :
    Inv servers { s.handleSnapshot event.snapshot with next := s.next + 1 } := by
  have hlt : s.next < s.server.published.length := (List.getElem?_eq_some_iff.mp hget).1
  have hstream : s.server.stream[s.next]? = some event := by
    rw [Coordinator.stream, List.getElem?_append_left hlt]
    exact hget
  have hwindow := hs.window
  refine ⟨hs.serves, Nat.le_succ_of_le hwindow, hlt, Nat.succ_le_succ hs.had, hs.distinct, ?_, ?_, ?_,
    hs.opened, fun _ h => absurd hopen h, ?_, ?_⟩
  · exact List.forall_mem_append.mpr ⟨hs.updates, List.forall_mem_singleton.mpr trivial⟩
  · intro other fetch h
    have hhonest := hs.honest other fetch h
    exact ⟨Nat.le_succ_of_le hhonest.le, hhonest.todo, hhonest.covers, hhonest.complete,
      fun reading hreading server hserver hid =>
        (hhonest.readings reading hreading server hserver hid).deliver⟩
  · intro server hserver
    show Traced server s.server.stream s.start (s.next + 1) (s.eventRevisionRef + 1)
      (revisionOf (s.handleSnapshot event.snapshot).serverEventRevisionsRef server.id)
      ((s.handleSnapshot event.snapshot).shown server.id)
    rw [revisionOf_handle, shown_handle]
    by_cases hid : event.snapshot.serverID = server.id
    · rw [if_pos hid.symm, if_pos hid]
      exact traced_deliver hwindow hstream hid
    · rw [if_neg fun heq => hid heq.symm, if_neg hid]
      exact (hs.traced server hserver).deliver_other hstream hid
  · intro hfailed fetch hlatest
    have hrecent := hs.recent hfailed fetch hlatest
    show s.eventRevisionRef + 1 + s.start ≤ fetch.requestRevision + (s.next + 1)
    omega
  · intro hfailed fetch hlatest hsucceeded server hserver reading hreading hid
    by_cases hown : event.snapshot.serverID = server.id
    · exact Or.inl fun hquiet => hquiet s.next event hwindow (Nat.lt_succ_self _) hstream hown
    · refine (hs.answered hfailed fetch hlatest hsucceeded server hserver reading hreading
        hid).imp (fun hloud hquiet => hloud (hquiet.mono (Nat.le_refl _) (Nat.le_succ _))) ?_
      intro hshown
      exact (shown_handle s event.snapshot server.id).trans ((if_neg hown).trans hshown)

/-- The connection breaks. -/
theorem Inv.onerror (hs : Inv servers s) :
    Inv servers { s.onerror with connection := .connecting, start := 0, next := 0 } := by
  refine ⟨hs.serves, Nat.le_refl _, Nat.zero_le _, Nat.zero_le _, hs.distinct, hs.updates,
    hs.honest_restart 0, fun server hserver => (hs.traced server hserver).restart 0, ?_, ?_, ?_, ?_⟩
  · intro h
    cases h
  all_goals
    intro h
    cases h

/-- React runs the next function. -/
theorem Inv.render (hs : Inv servers s) {u : Update F} {updates : List (Update F)}
    (hupdates : s.updates = u :: updates) :
    Inv servers
      { s with
        snapshots := u.apply localeCompare s.serverEventRevisionsRef s.snapshots
        updates } := by
  have hu := hs.updates
  rw [hupdates, List.forall_mem_cons] at hu
  have hshown : ∀ id, ({ s with
      snapshots := u.apply localeCompare s.serverEventRevisionsRef s.snapshots
      updates } : Page F).shown id = s.shown id := by
    intro id
    unfold shown
    rw [hupdates, List.foldl_cons, Update.snapshotOf?_apply hs.distinct hu.1]
  refine ⟨hs.serves, hs.window, hs.next_le, hs.had, Update.distinct_apply hs.distinct hu.1, hu.2,
    hs.honest, ?_, hs.opened, hs.first, hs.recent, ?_⟩
  · intro server hserver
    rw [hshown]
    exact hs.traced server hserver
  · intro hfailed fetch hlatest hsucceeded server hserver reading hreading hid
    rw [hshown]
    exact hs.answered hfailed fetch hlatest hsucceeded server hserver reading hreading hid

/-- **Every step keeps the invariant.** -/
theorem Inv.step (hs : Inv servers s) (a : Action F) : Inv servers (s.step localeCompare a) := by
  unfold Page.step
  split
  next a =>
    split
    next hkeeps => exact hs.server hkeeps
    next => exact hs
  next =>
    split
    next hclosed => exact hs.mount hclosed
    next => exact hs
  next =>
    split
    next => exact hs
    next => exact hs.refresh
  next =>
    split
    next hfetch => exact hs.list hfetch
    next => exact hs
  next =>
    split
    next hfetch => exact hs.read hfetch
    next => exact hs
  next =>
    split
    next hfetch => exact hs.respond hfetch rfl rfl
    next => exact hs
  next =>
    split
    next hfetch =>
      split
      next => exact hs.fail hfetch _
      next => exact hs
    next => exact hs
  next =>
    split
    next hconnecting => exact hs.subscribe hconnecting
    next => exact hs
  next =>
    split
    next => exact hs.onopen
    next => exact hs
  next =>
    split
    next hopen =>
      split
      next => exact hs
      next hget => exact hs.deliver hopen hget
    next => exact hs
  next =>
    split
    next => exact hs
    next => exact hs.onerror
  next =>
    split
    next => exact hs
    next hupdates => exact hs.render hupdates

theorem inv_run (tables : Tables F) (as : List (Action F)) :
    Inv tables.registry.servers (run (step localeCompare) (initial tables) as) :=
  run_invariant (fun _ a hs => hs.step a) (inv_initial tables) as

/-! ## The settled page -/

theorem Settled.stream (h : s.Settled) : s.server.stream = s.server.published := by
  rw [Coordinator.stream, h.published, List.append_nil]

theorem Settled.shown (h : s.Settled) (id : Int) : s.shown id = snapshotOf? id s.snapshots := by
  rw [Page.shown, h.rendered, List.foldl_nil]

variable {server : Server}

/-- Once all events are delivered, a server with events of this connection is shown as it is. -/
theorem Inv.shown_of_heard (hs : Inv servers s) (hserver : server ∈ servers)
    (hnext : s.next = s.server.stream.length)
    (hloud : ¬ Quiet Event.serverID server.id s.server.stream s.start s.next)
    {snapshot : Snapshot F} (hshown : s.shown server.id = some snapshot) :
    snapshot = lastTold server s.server.stream := by
  obtain ⟨seen, hseen, rfl, hbehind⟩ := (hs.traced server hserver).place snapshot hshown
  have hstart : s.start ≤ seen := by
    rcases Nat.le_total seen s.start with hle | hle
    · exact absurd (hbehind.mono (Nat.max_le.mpr ⟨hle, Nat.le_refl _⟩) (Nat.le_refl _)) hloud
    · exact hle
  rw [Nat.max_eq_left hstart, hnext] at hbehind
  have hlast := hbehind.lastOf_take hseen
  rw [List.take_length] at hlast
  rw [lastTold, lastTold, hlast]

/-- Without such events, what the fetch has read is as it is, unless it was overtaken by an event
before the connection subscribed. -/
theorem lastTold_of_quiet {log : List (Event F)} {start seen : Nat} (hstart : start ≤ log.length)
    (hseen : seen ≤ log.length) (hquiet : Quiet Event.serverID server.id log start log.length) :
    lastTold server log =
      (lastOf Event.serverID server.id ((log.take start).drop seen)).elim
        (lastTold server (log.take seen)) Event.snapshot := by
  cases hmissed : lastOf Event.serverID server.id ((log.take start).drop seen) with
  | none =>
    have hbehind : Quiet Event.serverID server.id log seen log.length := by
      intro n event hn hlt hget
      rcases Nat.lt_or_ge n start with hbefore | hafter
      · exact quiet_iff.mpr hmissed n event hn hbefore hget
      · exact hquiet n event hafter hlt hget
    have hlast := hbehind.lastOf_take hseen
    rw [List.take_length] at hlast
    rw [Option.elim_none, lastTold, lastTold, hlast]
  | some event =>
    have hlast := hquiet.lastOf_take hstart
    rw [List.take_length, ← List.take_append_drop seen (log.take start), lastOf_append, hmissed,
      Option.some_or] at hlast
    rw [Option.elim_some, lastTold_some hlast]

/-- A settled page knows every server. -/
theorem Inv.exists_reading (hs : Inv servers s) (hserver : server ∈ servers)
    (hlatest : s.latest? = some fetch) (hsucceeded : fetch.progress = .succeeded) :
    ∃ reading ∈ fetch.readings, reading.snapshot.serverID = server.id := by
  have hhonest := hs.honest _ _ hlatest
  have hcovers := hhonest.covers (Or.inr hsucceeded)
  rw [hhonest.complete hsucceeded, List.map_nil, List.append_nil] at hcovers
  exact List.mem_map.mp (hcovers ▸ List.mem_map_of_mem hserver)

/-- A server with events of this connection is shown. -/
theorem Inv.isSome_of_heard (hs : Inv servers s) (hserver : server ∈ servers)
    (hloud : ¬ Quiet Event.serverID server.id s.server.stream s.start s.next) :
    (s.shown server.id).isSome := by
  have htraced := hs.traced server hserver
  refine htraced.known (Nat.pos_of_ne_zero fun hzero => hloud ?_)
  intro n event hstart hlt hget hid
  have hrevised := htraced.revised n event hstart hlt hget hid
  have hhad := hs.had
  omega

/-- **A settled page displays a server as it is, unless it has missed something.** -/
theorem Inv.displays_iff (hs : Inv servers s) (hsettled : s.Settled) (hserver : server ∈ servers) :
    s.Displays server ↔ ¬ s.Missed server := by
  have hstream := hsettled.stream
  have hnext : s.next = s.server.stream.length := hsettled.delivered.trans (by rw [hstream])
  have hfailed := hs.opened hsettled.isOpen
  have hcurrent := hs.serves.snapshotFor_eq hserver
  have hquiet : Quiet Event.serverID server.id s.server.stream s.start s.next ↔
      lastOf Event.serverID server.id (s.server.published.drop s.start) = none := by
    rw [quiet_iff, hnext, List.take_length, hstream]
  have hdisplays : s.Displays server ↔
      s.shown server.id = some (lastTold server s.server.stream) := by
    rw [Displays, hcurrent, hsettled.shown]
  rw [hdisplays]
  by_cases hloud : Quiet Event.serverID server.id s.server.stream s.start s.next
  · -- nobody was told of the events before the connection subscribed
    have htold : ∀ fetch, s.latest? = some fetch → fetch.progress = .succeeded →
        ∀ reading ∈ fetch.readings, reading.snapshot.serverID = server.id →
          s.shown server.id = some reading.snapshot ∧ lastTold server s.server.stream =
            (lastOf Event.serverID server.id
              ((s.server.published.take s.start).drop reading.seen)).elim reading.snapshot
              Event.snapshot := by
      intro fetch hlatest hsucceeded reading hreading hid
      have hread := (hs.honest _ _ hlatest).readings reading hreading server hserver hid
      refine ⟨(hs.answered hfailed fetch hlatest hsucceeded server hserver reading hreading
        hid).resolve_left (not_not.mpr hloud), ?_⟩
      have hstart : s.start ≤ s.server.stream.length := hnext ▸ hs.window
      rw [lastTold_of_quiet hstart hread.seen_le (hnext ▸ hloud), ← hread.told, hstream]
    obtain ⟨fetch, hlatest, hsucceeded⟩ := hsettled.succeeded
    obtain ⟨reading, hreading, hid⟩ := hs.exists_reading hserver hlatest hsucceeded
    obtain ⟨hshown, hlast⟩ := htold fetch hlatest hsucceeded reading hreading hid
    constructor
    · rintro hsame ⟨fetch', reading', event, hlatest', hreading', hid', hevent, _, hnews⟩
      cases hlatest.symm.trans hlatest'
      obtain ⟨hshown', hlast'⟩ := htold fetch hlatest hsucceeded reading' hreading' hid'
      rw [hevent, Option.elim_some] at hlast'
      rw [hshown', Option.some_inj, hlast'] at hsame
      exact hnews hsame.symm
    · intro hnot
      rw [hshown, hlast, Option.some_inj]
      cases hevent : lastOf Event.serverID server.id
          ((s.server.published.take s.start).drop reading.seen) with
      | none => rfl
      | some event =>
        by_contra hne
        exact hnot ⟨fetch, reading, event, hlatest, hreading, hid, hevent, hquiet.mp hloud,
          fun heq => hne heq.symm⟩
  · obtain ⟨snapshot, hshown⟩ := Option.isSome_iff_exists.mp (hs.isSome_of_heard hserver hloud)
    rw [hshown, hs.shown_of_heard hserver hnext hloud hshown]
    apply iff_of_true rfl
    rintro ⟨_, _, _, _, _, _, _, hnone, _⟩
    exact hloud (hquiet.mpr hnone)

end Steps

/-- **The page converges to the server exactly where it has missed nothing**: in every run, whenever
it has settled, it displays of a server what that server now is, unless the last event about it came
between the read of the latest fetch and the subscription and was news. -/
theorem settled_displays_iff (localeCompare : String → String → Int) (tables : Tables F)
    (as : List (Action F)) :
    let s := run (step localeCompare) (initial tables) as
    s.Settled → ∀ server ∈ s.server.registry.servers, (s.Displays server ↔ ¬ s.Missed server) := by
  intro s hsettled server hserver
  have hs : Inv tables.registry.servers s := inv_run tables as
  exact hs.displays_iff hsettled (hs.serves.registered ▸ hserver)

/-- A call of `Accept`, from the lock to its return. -/
def accepted (t : Int) : List (Action Exact) :=
  .server (.accept ⟨0, .ofCPU (.fin 0), .ofUnix t, ""⟩) ::
    List.replicate 5 (.server (.proceed .ok))

/-- A sweep that finds one server expired. -/
def swept (t : Int) : List (Action Exact) :=
  .server (.sweep (.ofUnix t) [1]) :: List.replicate 2 (.server (.proceed .ok))

/-- The page is open before the report comes. -/
def heard : Page Exact :=
  run (step fun _ _ => 0) (initial .oneServer)
    ([.mount, .list 1, .read 1, .subscribe, .onopen] ++ accepted 10 ++
      [.deliver, .respond 1, .render, .render])

/-- The answer was read before the report, and the report is displayed. -/
theorem heard_displays : heard.Displays ⟨1, "web", true⟩ := by
  refine (settled_displays_iff (fun _ _ => 0) .oneServer _ ?_ ⟨1, "web", true⟩ ?_).mpr ?_
  · exact ⟨by decide +kernel, by decide +kernel, rfl, rfl, _, rfl, rfl⟩
  · decide +kernel
  · rintro ⟨_, reading, event, _, _, _, hlast, _⟩
    have hstart : heard.start = 0 := by decide +kernel
    change lastOf _ _ ((heard.server.published.take heard.start).drop reading.seen) = _ at hlast
    rw [hstart, List.take_zero, List.drop_nil] at hlast
    cases hlast

/-- The fetch finds the server online, a sweep finds it gone, and only then does the connection
subscribe. -/
def unheard : List (Action Exact) :=
  accepted 10 ++ [.mount, .list 1, .read 1] ++ swept 60 ++
    [.subscribe, .onopen, .respond 1, .render]

/-- **A server that goes offline before the connection subscribes is displayed as online**: nobody
is told of it, and the page does not ask again. -/
theorem offline_not_displayed :
    (∀ a ∈ unheard, a ≠ .onerror) ∧
      let s := run (step fun _ _ => 0) (initial .oneServer) unheard
      s.Settled ∧ ⟨1, "web", true⟩ ∈ s.server.registry.servers ∧
        (snapshotOf? 1 s.snapshots).map Snapshot.online = some true ∧
        (snapshotFor s.server.store ⟨1, "web", true⟩).online = false ∧
        ¬ s.Displays ⟨1, "web", true⟩ := by
  refine ⟨?_, ⟨by decide +kernel, by decide +kernel, rfl, rfl, _, rfl, rfl⟩, by decide +kernel,
    by decide +kernel, by decide +kernel, ?_⟩
  · intro a ha heq
    subst heq
    simp [unheard, accepted, swept] at ha
  · intro hdisplays
    have honline := congrArg (Option.map Snapshot.online) hdisplays
    exact absurd honline (by decide +kernel)

end Page

end TinyProbe.Web
