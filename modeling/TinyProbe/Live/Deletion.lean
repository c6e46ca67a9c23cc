import TinyProbe.Live.Agreement

/-!
# Deletion is final

When `Delete` has returned success, nothing in the process or the database says anything of the
server any more, and nothing ever will: the registry has no row of the id and gives none to it, so
no report is authenticated as the server's and the foreign key refuses every row of `metric_minutes`
that a flush still has in hand. `Erased` is that state, and every step keeps it.
-/

namespace TinyProbe.Live.Coordinator

open Servers Protocol History Run

variable {F : Type} [Float64 F] {s s' : Coordinator F} {a : Action F} {id : Int}

/-- History has no row of the server. -/
def NoRows (id : Int) (history : Aggregator F) : Prop :=
  ∀ key, key.serverID = id → history.row? key = none

/-- History has no bucket of the server. -/
def NoBuckets (id : Int) (history : Aggregator F) : Prop :=
  ∀ key, key.serverID = id → history.bucket? key = none

/-- Nothing says anything of the server, and since `start` no event has. -/
structure Erased (id : Int) (start : Nat) (s : Coordinator F) : Prop where
  known : s.Known id (fun _ => False) start
  rows : NoRows id s.history
  buckets : NoBuckets id s.history

/-! ## Rows -/

/-- A row that a write changes is that of the candidate it writes. -/
theorem row?_write (history : Aggregator F) (f : Nat) (err : Option FlushError) (stored : Bool)
    (key : Key) :
    (history.step (.write f err stored)).row? key = history.row? key ∨
      (err = none ∨ stored = true) ∧ ∃ c, nextWrite history f = some c ∧ c.key = key := by
  simp only [Aggregator.step]
  split
  next => exact Or.inl rfl
  next fl hfl =>
    split
    next c todo firstErr hphase =>
      have hnext : nextWrite history f = some c := by
        rw [nextWrite, hfl, Option.bind_some, hphase]
      have hkey : (⟨c.record.serverID, c.record.minuteUnix⟩ : Key) = c.key := by
        rw [c.record_eq]
        rfl
      have hupsert : ∀ history' : Aggregator F, history'.rows = history.rows →
          (history'.upsertMinute c.record).row? key = history.row? key ∨ c.key = key := by
        intro history' hrows
        by_cases heq : c.key = key
        · exact Or.inr heq
        · refine Or.inl ((Map.lookup_insert _ _ _ _).trans ?_)
          rw [hkey, if_neg fun h => heq h.symm, hrows]
          rfl
      unfold Aggregator.write
      cases err with
      | none =>
        rcases hupsert _ rfl with hsame | heq
        · exact Or.inl hsame
        · exact Or.inr ⟨Or.inl rfl, c, hnext, heq⟩
      | some e =>
        dsimp only
        split
        next hstored =>
          rcases hupsert _ rfl with hsame | heq
          · exact Or.inl hsame
          · exact Or.inr ⟨Or.inr hstored, c, hnext, heq⟩
        next => exact Or.inl rfl
    next => exact Or.inl rfl

/-- **A server that is not registered gets no row.** -/
theorem noRows_flush {b : Aggregator.Action F} (hflush : b.ofFlush = true) (hwrites : s.Writes b)
    (hgone : s.registry.row? id = none) (h : NoRows id s.history) :
    NoRows id (s.history.step b) := by
  intro key hkey
  by_cases hwrite : ∃ f err stored, b = .write f err stored
  · obtain ⟨f, err, stored, rfl⟩ := hwrite
    rcases row?_write s.history f err stored key with hsame | ⟨hreaches, c, hnext, rfl⟩
    · rw [hsame]
      exact h key hkey
    · rcases hwrites f err stored rfl with hadmits | ⟨herr, hstored⟩
      · rw [admits, hnext, Option.all_some, hkey, hgone] at hadmits
        cases hadmits
      · rcases hreaches with rfl | htrue
        · cases herr
        · rw [hstored] at htrue
          cases htrue
  · have hrows := (Aggregator.step_flush (s := s.history) hflush).2.2 fun f err stored heq =>
      hwrite ⟨f, err, stored, heq⟩
    rw [Aggregator.row?, hrows]
    exact h key hkey

theorem noRows_cascade (outcome : Outcome) (id' : Int) (h : NoRows id s.history) :
    NoRows id { s.history with rows := s.cascade id' outcome } := by
  intro key hkey
  show AList.lookup key (s.cascade id' outcome) = none
  unfold cascade
  split
  next =>
    rw [Map.lookup_filterKeys, show AList.lookup key s.history.rows = none from h key hkey, ite_self]
  next => exact h key hkey

/-- A successful deletion takes the rows with it. -/
theorem noRows_deleted {outcome : Outcome} (hok : (Service.delete s.registry id outcome).1 = .ok ()) :
    NoRows id { s.history with rows := s.cascade id outcome } := by
  obtain ⟨rfl, hrow, _⟩ := Service.delete_ok hok
  intro key hkey
  show AList.lookup key (s.cascade id .ok) = none
  rw [cascade, if_pos ⟨rfl, hrow⟩, Map.lookup_filterKeys, hkey, if_neg]
  simp only [bne_self_eq_false, Bool.false_eq_true, not_false_eq_true]

theorem row?_of_knows (h : s.registry.Knows id fun _ => False) : s.registry.row? id = none :=
  Option.eq_none_iff_forall_ne_some.mpr fun row hrow => h.2 row hrow

/-! ## Every step keeps a deletion -/

/-- A server of which there is nothing to know has no rows, and gets none. -/
theorem noRows_step (hknows : s.Knows id fun _ => False) (h : NoRows id s.history)
    (hstep : Step s a s') : NoRows id s'.history := by
  cases hstep with
  | flushed hflush hwrites => exact noRows_flush hflush hwrites (row?_of_knows hknows.1) h
  | turn hheld hturn =>
    cases hturn with
    | notDeleted | deleted => exact noRows_cascade _ _ h
    | _ => exact h
  | _ => exact h

/-- It has no buckets, and gets none. -/
theorem noBuckets_step (hknows : s.Knows id fun _ => False) (h : NoBuckets id s.history)
    (hstep : Step s a s') : NoBuckets id s'.history := by
  intro key hkey
  cases hstep with
  | flushed hflush =>
    by_contra hsome
    obtain ⟨b, hb⟩ := Option.ne_none_iff_exists'.mp hsome
    have := (Aggregator.step_flush hflush).2.1 key b hb
    rw [h key hkey] at this
    cases this
  | turn hheld hturn =>
    cases hturn with
    | @recorded call server hphase =>
      refine (Aggregator.bucket?_accept _ _).trans ?_
      rw [if_neg, h key hkey]
      rintro rfl
      exact hknows.2 _ server hheld (by rw [hphase]; rfl) hkey
    | removed =>
      refine (Aggregator.bucket?_removeServer _ _).trans ?_
      rw [h key hkey, ite_self]
    | _ => exact h key hkey
  | _ => exact h key hkey

theorem Erased.step {start : Nat} (hs : s.Erased id start) (a : Action F) :
    (s.step a).Erased id start := by
  exact ⟨hs.known.step spares_false, noRows_step hs.known.knows hs.rows (step_step s a),
    noBuckets_step hs.known.knows hs.buckets (step_step s a)⟩

/-! ## The steps of a deletion -/

/-- A deletion under way: its statement has left nothing to know of the server and no rows, and from
its `delete` on there is no snapshot. -/
structure Clearing (s : Coordinator F) : Prop where
  statement : ∀ h id, s.holder = some h → h.phase = .dropping id ∨ h.phase = .removing id →
    (s.Knows id fun _ => False) ∧ NoRows id s.history
  dropped : ∀ h id, s.holder = some h → h.phase = .removing id → s.store.get id = none

theorem clearing_free (h : s.holder = none) : s.Clearing where
  statement h' id hheld := by rw [h] at hheld; cases hheld
  dropped h' id hheld := by rw [h] at hheld; cases hheld

/-- A call in another phase clears nothing. -/
theorem clearing_of_phase {h : Holder F} (hheld : s.holder = some h)
    (hdropping : ∀ id, h.phase ≠ .dropping id) (hremoving : ∀ id, h.phase ≠ .removing id) :
    s.Clearing where
  statement h' id hheld' hphase := by
    cases hheld.symm.trans hheld'
    rcases hphase with hphase | hphase
    · exact absurd hphase (hdropping id)
    · exact absurd hphase (hremoving id)
  dropped h' id hheld' hphase := by
    cases hheld.symm.trans hheld'
    exact absurd hphase (hremoving id)

theorem clearing_turn {h : Holder F} {outcome : Outcome} (hs : s.Clearing)
    (hheld : s.holder = some h) (hturn : Turn s h outcome s') : s'.Clearing := by
  cases hturn with
  | refused | unversioned | recorded | swept | notUpdated | renamed | notDeleted | removed =>
    exact clearing_free rfl
  | authenticated | versioned | stored | published | offline | updated =>
    refine clearing_of_phase rfl ?_ ?_ <;> exact fun id hphase => by cases hphase
  | @deleted id hphase hok =>
    refine ⟨?_, ?_⟩
    · intro h' id' hheld' hphase'
      cases hheld'
      obtain rfl : id = id' := by
        rcases hphase' with hphase' | hphase' <;> cases hphase'
        rfl
      refine ⟨⟨(Service.delete_ok hok).2.2, ?_⟩, noRows_deleted hok⟩
      intro h' server hheld' hserver
      cases hheld'
      cases hserver
    · intro h' id' hheld' hphase'
      cases hheld'
      cases hphase'
  | @dropped id hphase =>
    obtain ⟨hknows, hrows⟩ := hs.statement h id hheld (Or.inl hphase)
    refine ⟨?_, ?_⟩
    · intro h' id' hheld' hphase'
      cases hheld'
      obtain rfl : id = id' := by
        rcases hphase' with hphase' | hphase' <;> cases hphase'
        rfl
      refine ⟨⟨hknows.1, ?_⟩, hrows⟩
      intro h' server hheld' hserver
      cases hheld'
      cases hserver
    · intro h' id' hheld' hphase'
      cases hheld'
      cases hphase'
      exact (Store.get_delete _ _ _).trans (if_pos rfl)

theorem Clearing.step (hs : s.Clearing) (hstep : Step s a s') : s'.Clearing := by
  have hsame : s'.holder = s.holder → s'.store = s.store → s'.Clearing := by
    intro hholder hstore
    refine ⟨?_, ?_⟩
    · intro h id hheld hphase
      obtain ⟨hknows, hrows⟩ := hs.statement h id (hholder ▸ hheld) hphase
      exact ⟨hknows.step hstep spares_false, noRows_step hknows hrows hstep⟩
    · intro h id hheld hphase
      rw [hstore]
      exact hs.dropped h id (hholder ▸ hheld) hphase
  cases hstep with
  | stay => exact hs
  | locked _ _ hstarts =>
    refine clearing_of_phase rfl ?_ ?_ <;> intro id hphase <;> cases hphase <;> cases hstarts
  | marked => refine clearing_of_phase rfl ?_ ?_ <;> exact fun id hphase => by cases hphase
  | turn hheld hturn => exact clearing_turn hs hheld hturn
  | created | notRotated | rotated | rotationReturned | flushed => exact hsame rfl rfl

/-- A deletion that has succeeded returns by removing the buckets. -/
theorem delete_returns {h : Holder F} {outcome : Outcome} {before after : View F}
    (hfits : h.Fits s.view) (hturn : Turn s h outcome s')
    (hreturned : s'.returned = s.returned ++ [⟨.delete id, true, before, after⟩]) :
    h.phase = .removing id ∧ s'.holder = none ∧ s'.store = s.store ∧
      s'.history = s.history.removeServer id := by
  obtain ⟨hfree, hop⟩ := turn_returned hturn hreturned
  unfold Holder.Fits at hfits
  cases hturn with
  | refused | unversioned | notUpdated | notDeleted =>
    cases congrArg Returned.ok (List.singleton_inj.mp (List.append_cancel_left hreturned))
  | recorded hphase =>
    rw [hphase] at hfits
    cases hfits.symm.trans hop
  | swept hphase =>
    rw [hphase] at hfits
    obtain ⟨cutoff, done, hsweep, _⟩ := hfits
    cases hsweep.symm.trans hop
  | renamed hphase =>
    rw [hphase] at hfits
    obtain ⟨name, enabled, hupdate, _⟩ := hfits
    cases hupdate.symm.trans hop
  | removed hphase =>
    rw [hphase] at hfits
    cases hfits.symm.trans hop
    exact ⟨hphase, rfl, rfl, rfl⟩
  | authenticated | versioned | stored | published | offline | updated | deleted | dropped =>
    cases hfree

/-- **A deletion that returns success has erased the server.** -/
theorem erased_of_returned {before after : View F} (hs : s.Sound) (hclearing : s.Clearing)
    (hreturned : (s.step a).returned = s.returned ++ [⟨.delete id, true, before, after⟩]) :
    (s.step a).Erased id (s.step a).published.length := by
  have hstep := step_step s a
  obtain ⟨h, outcome, ha, hheld, hturn⟩ := returned_step hstep hreturned
  obtain ⟨hphase, hfree, hstore, hhistory⟩ := delete_returns (hs.orderly.fits h hheld) hturn hreturned
  obtain ⟨hknows, hrows⟩ := hclearing.statement h id hheld (Or.inr hphase)
  refine ⟨⟨hs.step a, hknows.step hstep spares_false, ?_, ?_, ?_⟩,
    noRows_step hknows hrows hstep, ?_⟩
  · rw [stream_free hfree]
  · intro snapshot hget
    rw [hstore, hclearing.dropped h id hheld hphase] at hget
    cases hget
  · intro e he
    rw [stream_free hfree, List.drop_length] at he
    cases he
  · intro key hkey
    rw [hhistory, Aggregator.bucket?_removeServer, if_pos hkey]

/-! ## The runs -/

theorem clearing_run (tables : Tables F) (as : List (Action F)) :
    (run step (initial tables) as).Clearing :=
  run_invariant (fun s a hs => Clearing.step hs (step_step s a)) (clearing_free rfl) as

/-- **Deletion is final.** In every state after a deletion has returned success there is no live
snapshot, no bucket and no row of the server, and no event about it has been published since; a
deletion that returns an error has changed neither the live store nor the buckets. -/
theorem deletion_final (tables : Tables F) (as : List (Action F)) (a : Action F) (id : Int)
    (before after : View F) :
    let s := run step (initial tables) as
    ((s.step a).returned = s.returned ++ [⟨.delete id, true, before, after⟩] →
      ∀ bs : List (Action F),
        let s' := run step (s.step a) bs
        s'.store.get id = none ∧
          (∀ key, key.serverID = id → s'.history.bucket? key = none ∧ s'.history.row? key = none) ∧
          ∀ e ∈ s'.published.drop (s.step a).published.length, e.serverID ≠ id) ∧
      ((s.step a).returned = s.returned ++ [⟨.delete id, false, before, after⟩] →
        s.view = before ∧ (s.step a).view = before ∧
          (s.step a).history.buckets = s.history.buckets) := by
  intro s
  have hs : s.Sound := sound_run tables as
  refine ⟨?_, ?_⟩
  · intro hreturned bs s'
    have herased : s'.Erased id (s.step a).published.length :=
      run_invariant (fun _ a hs => hs.step a)
        (erased_of_returned hs (clearing_run tables as) hreturned) bs
    refine ⟨?_, fun key hkey => ⟨herased.buckets key hkey, herased.rows key hkey⟩, ?_⟩
    · exact Option.eq_none_iff_forall_ne_some.mpr herased.known.names.stored
    · exact herased.known.published
  · intro hreturned
    obtain ⟨h, outcome, _, hheld, hturn⟩ := returned_step (step_step s a) hreturned
    exact failed_returns (hs.orderly.fits h hheld) hturn hreturned

end TinyProbe.Live.Coordinator
