import TinyProbe.History.Aggregator

/-!
# No report is lost between a bucket and its rows

What holds whatever the interleaving of `Accept`, `RemoveServer` and concurrent flushes, and
whatever the writer answers (`sound_of_guarded`): a report accepted for a server that has not been
removed since is in the bucket of its key or in a record that was written; one flush at a time is
past the gate; a flush writes only minutes before its boundary, in order and each once; its cleanup
leaves alone a bucket that was removed and made anew; and it returns the first error of a candidate
whose bucket was not removed.

Two things are not so. A flush looks at its context again behind the gate, and if it is done the
flush returns its error without a candidate (`doneInGate_overtaken`). And the cleanup recognises a
changed bucket by a uint64, so 2^64 reports between snapshot and cleanup go unnoticed and are
dropped with the bucket (`overtaken_lost`). The runs here are those in which no bucket takes as many
(`InBounds`).

The invariant that carries this says of each candidate a flush has still to clean up that the bucket
it came from is in the map under its key with what the candidate holds at its front, or, when its
server was removed, that the bucket under its key is another one (`Tracked`).
-/

namespace TinyProbe.History

open TinyProbe.Run Protocol

variable {F : Type} [Float64 F]

/-- The first error of a candidate whose bucket was not removed. -/
def firstError (log : List (Attempt F)) : Option FlushError :=
  (log.filter fun a => !a.removed).findSome? Attempt.err

theorem firstError_snoc (log : List (Attempt F)) (a : Attempt F) :
    firstError (log ++ [a]) = (firstError log).or (if a.removed then none else a.err) := by
  unfold firstError
  rw [List.filter_append, List.findSome?_append]
  cases ha : a.removed with
  | true => rw [List.filter_cons_of_neg (by rw [ha]; exact Bool.false_ne_true)]; rfl
  | false =>
    rw [List.filter_cons_of_pos (by rw [ha]; rfl), List.filter_nil, List.findSome?_cons]
    cases a.err <;> rfl

/-! ## One flush -/

namespace Flush

/-- The record of a flush with these candidates before it and this error so far. -/
structure Progress (boundary : Time) (taken : Option (List (Candidate F))) (log : List (Attempt F))
    (pending : List (Candidate F)) (firstErr : Option FlushError) : Prop where
  taken : taken = some (log.map Attempt.candidate ++ pending)
  first : firstErr = firstError log
  sorted : (log.map Attempt.candidate ++ pending).Pairwise fun a b => a.key.LT b.key
  before : ∀ c ∈ log.map Attempt.candidate ++ pending, c.key.before boundary = true

/-- What the phase of a flush says about its record. -/
def Local (fl : Flush F) : Prop :=
  match fl.phase with
  | .called | .waiting => fl.passed = false ∧ fl.taken = none ∧ fl.log = []
  | .entered | .checked => fl.passed = true ∧ fl.taken = none ∧ fl.log = []
  | .writing todo firstErr =>
    fl.passed = true ∧ Progress fl.boundary fl.taken fl.log todo firstErr
  | .cleaning c _ todo firstErr =>
    fl.passed = true ∧ Progress fl.boundary fl.taken fl.log (c :: todo) firstErr
  | .returned err =>
    (fl.taken = none ∧ fl.log = [] ∧ fl.cancelled = true ∧ err = some .context) ∨
      (fl.passed = true ∧ Progress fl.boundary fl.taken fl.log [] err)

section Local

variable {fl : Flush F} {boundary : Time} {taken : Option (List (Candidate F))}
  {log : List (Attempt F)} {c : Candidate F} {todo : List (Candidate F)}
  {firstErr err : Option FlushError}

/-- A cleaned candidate goes to the log. -/
theorem Progress.snoc (h : Progress boundary taken log (c :: todo) firstErr) (removed : Bool) :
    Progress boundary taken (log ++ [⟨c, err, removed⟩]) todo
      (firstErr.or (if removed then none else err)) := by
  have hlist : (log ++ [(⟨c, err, removed⟩ : Attempt F)]).map Attempt.candidate ++ todo =
      log.map Attempt.candidate ++ c :: todo := by
    rw [List.map_append, List.append_assoc]
    rfl
  refine ⟨?_, ?_, ?_, ?_⟩
  · rw [hlist]
    exact h.taken
  · rw [firstError_snoc, h.first]
  · rw [hlist]
    exact h.sorted
  · rw [hlist]
    exact h.before

/-- No candidate comes twice. -/
theorem Progress.key_ne (h : Progress boundary taken log (c :: todo) firstErr) {d : Candidate F}
    (hd : d ∈ todo) :
    d.key ≠ c.key := fun heq => by
  have hlt := (List.pairwise_cons.mp (List.pairwise_append.mp h.sorted).2.1).1 d hd
  rw [heq] at hlt
  exact Key.lt_irrefl _ hlt

/-- The calls of `UpsertMinute` are the first of the candidates. -/
theorem Local.upserts (h : fl.Local) : (fl.upserts.Pairwise fun a b => a.key.LT b.key) ∧
    ∀ c ∈ fl.upserts, c.key.before fl.boundary = true := by
  have hbefore : fl.upserts = [] ∨ ∃ pending firstErr,
      Progress fl.boundary fl.taken fl.log pending firstErr ∧
        fl.upserts <+: fl.log.map Attempt.candidate ++ pending := by
    unfold Local at h
    unfold Flush.upserts
    cases hp : fl.phase with
    | called | waiting | entered | checked =>
      rw [hp] at h
      exact Or.inl (by rw [h.2.2]; rfl)
    | writing todo firstErr =>
      rw [hp] at h
      exact Or.inr ⟨todo, firstErr, h.2, (List.append_nil _).symm ▸ List.prefix_append _ _⟩
    | cleaning c err todo firstErr =>
      rw [hp] at h
      exact Or.inr ⟨c :: todo, firstErr, h.2, (List.prefix_append_right_inj _).mpr ⟨todo, rfl⟩⟩
    | returned err =>
      rw [hp] at h
      rcases h with ⟨_, hlog, _⟩ | ⟨_, hprogress⟩
      · exact Or.inl (by rw [hlog]; rfl)
      · exact Or.inr ⟨[], err, hprogress, List.prefix_refl _⟩
  rcases hbefore with hnil | ⟨pending, firstErr, hprogress, hbefore⟩
  · rw [hnil]
    exact ⟨List.Pairwise.nil, fun _ h => absurd h List.not_mem_nil⟩
  · exact ⟨hprogress.sorted.sublist hbefore.sublist, fun c hc =>
      hprogress.before c (hbefore.subset hc)⟩

/-- Only a call past the gate has candidates before it. -/
theorem past_of_pending (h : c ∈ fl.pending) : fl.past = true := by
  unfold Flush.pending at h
  unfold Flush.past
  cases hp : fl.phase with
  | entered | checked | writing todo firstErr | cleaning c err todo firstErr => rfl
  | called | waiting | returned err => rw [hp] at h; exact absurd h List.not_mem_nil

theorem Local.cancel (h : fl.Local) : ({ fl with cancelled := true } : Flush F).Local := by
  revert h
  unfold Local
  dsimp only
  cases fl.phase with
  | returned err => exact Or.imp (fun ⟨htaken, hlog, _, herr⟩ => ⟨htaken, hlog, rfl, herr⟩) id
  | _ => exact id

end Local

end Flush

/-! ## The invariant -/

namespace Aggregator

/-- No bucket takes 2^64 reports. -/
def InBounds (s : Aggregator F) : Action F → Prop
  | .accept serverID _ receivedAt =>
    ∀ b, s.bucket? (.of serverID receivedAt) = some b → b.samples.length + 1 < 2 ^ 64
  | _ => True

/-- The bucket of a candidate is in the map with at least what the candidate holds or, when its
server was removed, is not in the map. -/
def Tracked (s : Aggregator F) (removed : List Int) (c : Candidate F) : Prop :=
  c.bucket < s.nextBucket ∧
    if c.key.serverID ∈ removed then ∀ b, s.bucket? c.key = some b → b.id ≠ c.bucket
    else ∃ b, s.bucket? c.key = some b ∧ b.id = c.bucket ∧ c.samples <+: b.samples

/-- A report is in the bucket of its key or in a record that was written. -/
def Saved (s : Aggregator F) (x : Sample F) : Prop :=
  (∃ b, s.bucket? x.key = some b ∧ x ∈ b.samples) ∨ ∃ c ∈ s.written, x ∈ c.samples

structure Inv (s : Aggregator F) : Prop where
  ids : ∀ key b, s.bucket? key = some b → b.id < s.nextBucket
  sizes : ∀ key b, s.bucket? key = some b → b.samples.length < 2 ^ 64
  numbered : ∀ f fl, s.flush? f = some fl → f < s.nextFlush
  phases : ∀ f fl, s.flush? f = some fl → fl.Local
  gate : ∀ f fl, s.flush? f = some fl → fl.past = true → s.gate = some f
  tracked : ∀ f fl, s.flush? f = some fl → ∀ c ∈ fl.pending, s.Tracked fl.removed c
  wrote : ∀ f fl c todo firstErr, s.flush? f = some fl →
    fl.phase = .cleaning c none todo firstErr → c ∈ s.written
  saved : ∀ x ∈ s.accepted, s.Saved x

section Step

variable {s : Aggregator F} {f : Nat} {fl : Flush F}

/-- Nothing is accepted, so nothing can be lost. -/
theorem inv_initial : Inv (initial : Aggregator F) where
  ids := fun _ _ h => nomatch h
  sizes := fun _ _ h => nomatch h
  numbered := fun _ _ h => nomatch h
  phases := fun _ _ h => nomatch h
  gate := fun _ _ h => nomatch h
  tracked := fun _ _ h => nomatch h
  wrote := fun _ _ _ _ _ h => nomatch h
  saved := fun _ h => absurd h List.not_mem_nil

/-- What is tracked does not depend on the flushes, the gate, the rows and the logs. -/
theorem Tracked.congr {s' : Aggregator F} {removed : List Int} {c : Candidate F}
    (h : s.Tracked removed c) (hbucket : s'.bucket? c.key = s.bucket? c.key)
    (hnext : s'.nextBucket = s.nextBucket) : s'.Tracked removed c := by
  unfold Tracked at h ⊢
  rwa [hbucket, hnext]

/-- **A step of one flush** that leaves the buckets: it is enough to look at that flush, and at the
gate. -/
theorem Inv.move (h : Inv s) {fl' : Flush F} {gate' : Option Nat} (hnum : f < s.nextFlush)
    (hlocal : fl'.Local) (hpast : fl'.past = true → gate' = some f)
    (hgate : ∀ g, g ≠ f → s.gate = some g → gate' = some g)
    (htracked : ∀ c ∈ fl'.pending, s.Tracked fl'.removed c)
    (hwrote : ∀ c todo firstErr, fl'.phase = .cleaning c none todo firstErr → c ∈ s.written) :
    Inv { s.putFlush f fl' with gate := gate' } := by
  have hcases : ∀ g gl,
      ({ s.putFlush f fl' with gate := gate' } : Aggregator F).flush? g = some gl →
        g = f ∧ gl = fl' ∨ g ≠ f ∧ s.flush? g = some gl := fun g gl hg => by
    have hg' := (flush?_putFlush g).symm.trans hg
    split at hg'
    next heq => exact Or.inl ⟨heq, (Option.some.inj hg').symm⟩
    next hne => exact Or.inr ⟨hne, hg'⟩
  refine ⟨h.ids, h.sizes, ?_, ?_, ?_, ?_, ?_, h.saved⟩
  · intro g gl hg
    rcases hcases g gl hg with ⟨rfl, rfl⟩ | ⟨_, hg⟩
    · exact hnum
    · exact h.numbered g gl hg
  · intro g gl hg
    rcases hcases g gl hg with ⟨rfl, rfl⟩ | ⟨_, hg⟩
    · exact hlocal
    · exact h.phases g gl hg
  · intro g gl hg hp
    rcases hcases g gl hg with ⟨rfl, rfl⟩ | ⟨hne, hg⟩
    · exact hpast hp
    · exact hgate g hne (h.gate g gl hg hp)
  · intro g gl hg c hc
    rcases hcases g gl hg with ⟨rfl, rfl⟩ | ⟨_, hg⟩
    · exact (htracked c hc).congr rfl rfl
    · exact (h.tracked g gl hg c hc).congr rfl rfl
  · intro g gl c todo firstErr hg hp
    rcases hcases g gl hg with ⟨rfl, rfl⟩ | ⟨_, hg⟩
    · exact hwrote c todo firstErr hp
    · exact h.wrote g gl c todo firstErr hg hp

/-- A write grows the log and changes nothing that is tracked. -/
theorem Inv.store (h : Inv s) {rows : Map Key (MinutePayload F)} {written : List (Candidate F)}
    (hsub : s.written ⊆ written) : Inv { s with rows, written } where
  ids := h.ids
  sizes := h.sizes
  numbered := h.numbered
  phases := h.phases
  gate := h.gate
  tracked := fun g gl hg c hc => (h.tracked g gl hg c hc).congr rfl rfl
  wrote := fun g gl c todo firstErr hg hp => hsub (h.wrote g gl c todo firstErr hg hp)
  saved := fun x hx => (h.saved x hx).imp id fun ⟨c, hc, hx⟩ => ⟨c, hsub hc, hx⟩

/-- A bucket can go when no flush waits for it and its reports were written. -/
theorem Inv.erase (h : Inv s) {key : Key} {b : Bucket F} (hb : s.bucket? key = some b)
    (hpending : ∀ g gl, s.flush? g = some gl → ∀ c ∈ gl.pending, c.key ≠ key)
    (hwritten : ∀ x ∈ b.samples, ∃ c ∈ s.written, x ∈ c.samples) :
    Inv { s with buckets := s.buckets.erase key } := by
  have hold : ∀ k b',
      ({ s with buckets := s.buckets.erase key } : Aggregator F).bucket? k = some b' →
        s.bucket? k = some b' := fun k b' hk => by
    rw [bucket?_erase] at hk
    split at hk
    next => cases hk
    next => exact hk
  refine ⟨fun k b' hk => h.ids k b' (hold k b' hk), fun k b' hk => h.sizes k b' (hold k b' hk),
    h.numbered, h.phases, h.gate, ?_, h.wrote, ?_⟩
  · intro g gl hg c hc
    refine (h.tracked g gl hg c hc).congr ?_ rfl
    rw [bucket?_erase, if_neg (hpending g gl hg c hc)]
  · intro x hx
    rcases h.saved x hx with ⟨b', hb', hmem⟩ | hsaved
    · by_cases hkey : x.key = key
      · rw [hkey, hb] at hb'
        exact Or.inr (hwritten x (Option.some.inj hb' ▸ hmem))
      · refine Or.inl ⟨b', ?_, hmem⟩
        rw [bucket?_erase, if_neg hkey, hb']
    · exact Or.inr hsaved

/-- An accepted sample goes into the bucket of its minute, whose count does not wrap. -/
theorem inv_accept (h : Inv s) {x : Sample F}
    (hok : ∀ b, s.bucket? x.key = some b → b.samples.length + 1 < 2 ^ 64) : Inv (s.accept x) := by
  have hnew : ∀ key b, (s.accept x).bucket? key = some b → s.bucket? key = some b ∨
      key = x.key ∧ ((s.bucket? key = none ∧ b = (Bucket.fresh s.nextBucket).add x) ∨
        ∃ b', s.bucket? key = some b' ∧ b = b'.add x) := fun key b hb => by
    rw [bucket?_accept] at hb
    split at hb
    next heq =>
      refine Or.inr ⟨heq, ?_⟩
      rw [heq]
      cases hold : s.bucket? x.key with
      | none => rw [hold] at hb; exact Or.inl ⟨rfl, (Option.some.inj hb).symm⟩
      | some b' => rw [hold] at hb; exact Or.inr ⟨b', rfl, (Option.some.inj hb).symm⟩
    next => exact Or.inl hb
  have hkeep : ∀ key b, s.bucket? key = some b →
      ∃ b', (s.accept x).bucket? key = some b' ∧ b'.id = b.id ∧ b.samples <+: b'.samples :=
    fun key b hb => by
      rw [bucket?_accept]
      split
      next heq =>
        rw [← heq, hb]
        exact ⟨b.add x, rfl, rfl, List.prefix_append _ _⟩
      next => exact ⟨b, hb, rfl, List.prefix_refl _⟩
  refine ⟨?_, ?_, h.numbered, h.phases, h.gate, ?_, h.wrote, ?_⟩
  · intro key b hb
    rcases hnew key b hb with hb | ⟨_, ⟨_, rfl⟩ | ⟨b', hb', rfl⟩⟩
    · exact Nat.lt_succ_of_lt (h.ids key b hb)
    · exact Nat.lt_succ_self _
    · exact Nat.lt_succ_of_lt (h.ids key b' hb')
  · intro key b hb
    rcases hnew key b hb with hb | ⟨rfl, ⟨_, rfl⟩ | ⟨b', hb', rfl⟩⟩
    · exact h.sizes key b hb
    · exact (by decide : 1 < 2 ^ 64)
    · rw [Bucket.add, List.length_append, List.length_singleton]
      exact hok b' hb'
  · intro g gl hg c hc
    obtain ⟨hlt, hbucket⟩ := h.tracked g gl hg c hc
    refine ⟨Nat.lt_succ_of_lt hlt, ?_⟩
    split at hbucket
    next hremoved =>
      rw [if_pos hremoved]
      intro b hb
      rcases hnew c.key b hb with hb | ⟨_, ⟨_, rfl⟩ | ⟨b', hb', rfl⟩⟩
      · exact hbucket b hb
      · exact fun heq => absurd hlt (Nat.not_lt_of_ge (Nat.le_of_eq heq))
      · exact hbucket b' hb'
    next hremoved =>
      rw [if_neg hremoved]
      obtain ⟨b, hb, hid, hbefore⟩ := hbucket
      obtain ⟨b', hb', hid', hbefore'⟩ := hkeep c.key b hb
      exact ⟨b', hb', hid'.trans hid, hbefore.trans hbefore'⟩
  · intro y hy
    rcases List.mem_append.mp hy with hy | hy
    · rcases h.saved y hy with ⟨b, hb, hmem⟩ | hsaved
      · obtain ⟨b', hb', _, hbefore⟩ := hkeep y.key b hb
        exact Or.inl ⟨b', hb', hbefore.subset hmem⟩
      · exact Or.inr hsaved
    · rw [List.mem_singleton.mp hy]
      refine Or.inl ⟨_, (bucket?_accept x x.key).trans (if_pos rfl), ?_⟩
      exact List.mem_append_right _ List.mem_cons_self

/-- The samples of a server that is removed are given up, and only those. -/
theorem inv_removeServer (h : Inv s) (serverID : Int) : Inv (s.removeServer serverID) := by
  have hold : ∀ key b, (s.removeServer serverID).bucket? key = some b →
      key.serverID ≠ serverID ∧ s.bucket? key = some b := fun key b hb => by
    rw [bucket?_removeServer] at hb
    split at hb
    next => cases hb
    next hne => exact ⟨hne, hb⟩
  have hflush : ∀ g gl, (s.removeServer serverID).flush? g = some gl →
      ∃ gl', s.flush? g = some gl' ∧ { gl' with removed := serverID :: gl'.removed } = gl :=
    fun g gl hg => Option.map_eq_some_iff.mp ((flush?_removeServer serverID).symm.trans hg)
  refine ⟨fun key b hb => h.ids key b (hold key b hb).2,
    fun key b hb => h.sizes key b (hold key b hb).2, ?_, ?_, ?_, ?_, ?_, ?_⟩
  · intro g gl hg
    obtain ⟨gl, hg', rfl⟩ := hflush _ _ hg
    exact h.numbered g gl hg'
  · intro g gl hg
    obtain ⟨gl, hg', rfl⟩ := hflush _ _ hg
    exact h.phases g gl hg'
  · intro g gl hg hp
    obtain ⟨gl, hg', rfl⟩ := hflush _ _ hg
    exact h.gate g gl hg' hp
  · intro g gl hg c hc
    obtain ⟨gl, hg', rfl⟩ := hflush _ _ hg
    obtain ⟨hlt, hbucket⟩ := h.tracked g gl hg' c hc
    refine ⟨hlt, ?_⟩
    rw [bucket?_removeServer]
    simp only [List.mem_cons]
    by_cases heq : c.key.serverID = serverID
    · rw [if_pos (Or.inl heq), if_pos heq]
      intro _ hb
      cases hb
    · simp only [heq, false_or, if_false]
      exact hbucket
  · intro g gl c todo firstErr hg hp
    obtain ⟨gl, hg', rfl⟩ := hflush _ _ hg
    exact h.wrote g gl c todo firstErr hg' hp
  · intro x hx
    obtain ⟨hx, hne⟩ := List.mem_filter.mp hx
    rw [bne_iff_ne] at hne
    rcases h.saved x hx with ⟨b, hb, hmem⟩ | hsaved
    · refine Or.inl ⟨b, ?_, hmem⟩
      rw [bucket?_removeServer]
      exact (if_neg hne).trans hb
    · exact Or.inr hsaved

/-! ## The steps of a flush -/

/-- A step of one flush that leaves the gate as well. -/
theorem Inv.put (h : Inv s) {fl' : Flush F} (hnum : f < s.nextFlush) (hlocal : fl'.Local)
    (hpast : fl'.past = true → s.gate = some f)
    (htracked : ∀ c ∈ fl'.pending, s.Tracked fl'.removed c)
    (hwrote : ∀ c todo firstErr, fl'.phase = .cleaning c none todo firstErr → c ∈ s.written) :
    Inv (s.putFlush f fl') :=
  h.move hnum hlocal hpast (fun _ _ hg => hg) htracked hwrote

/-- Outside the loop a flush has no candidates before it. -/
def Phase.outside : Phase F → Bool
  | .writing _ _ | .cleaning _ _ _ _ => false
  | _ => true

/-- A step of one flush to a phase outside the loop. -/
theorem Inv.moveOut (h : Inv s) {fl' : Flush F} {gate' : Option Nat} (hnum : f < s.nextFlush)
    (hlocal : fl'.Local) (hpast : fl'.past = true → gate' = some f)
    (hgate : ∀ g, g ≠ f → s.gate = some g → gate' = some g)
    (hout : Phase.outside fl'.phase = true) :
    Inv { s.putFlush f fl' with gate := gate' } := by
  refine h.move hnum hlocal hpast hgate (fun c hc => ?_) fun c todo firstErr hp => ?_
  · unfold Flush.pending at hc
    cases hp : fl'.phase with
    | writing todo firstErr => rw [hp] at hout; cases hout
    | cleaning c err todo firstErr => rw [hp] at hout; cases hout
    | _ => rw [hp] at hc; exact absurd hc List.not_mem_nil
  · rw [hp] at hout
    cases hout

/-- A call that leaves the gate was the one in it. -/
theorem Inv.release (h : Inv s) (hf : s.flush? f = some fl) (hpast : fl.past = true) (g : Nat)
    (hne : g ≠ f) (hg : s.gate = some g) : (none : Option Nat) = some g :=
  absurd (Option.some.inj (hg.symm.trans (h.gate f fl hf hpast))) hne

theorem inv_call (h : Inv s) (boundary : Time) : Inv (s.step (.call boundary)) := by
  have hnext : Inv { s with nextFlush := s.nextFlush + 1 } :=
    ⟨h.ids, h.sizes, fun g gl hg => Nat.lt_succ_of_lt (h.numbered g gl hg), h.phases, h.gate,
      fun g gl hg c hc => (h.tracked g gl hg c hc).congr rfl rfl, h.wrote, h.saved⟩
  exact hnext.moveOut (Nat.lt_succ_self _) ⟨rfl, rfl, rfl⟩ (fun hp => by cases hp)
    (fun _ _ hg => hg) rfl

theorem inv_cancel (h : Inv s) (f : Nat) : Inv (s.step (.cancel f)) := by
  simp only [step]
  split
  next => exact h
  next fl hf =>
    exact h.put (h.numbered f fl hf) (h.phases f fl hf).cancel (h.gate f fl hf) (h.tracked f fl hf)
      fun c todo firstErr hp => h.wrote f fl c todo firstErr hf hp

theorem inv_check (h : Inv s) (f : Nat) : Inv (s.step (.check f)) := by
  simp only [step]
  split
  next => exact h
  next fl hf =>
    have hlocal := h.phases f fl hf
    have hnum := h.numbered f fl hf
    unfold Flush.Local at hlocal
    split
    next hp =>
      rw [hp] at hlocal
      cases hc : fl.cancelled with
      | false => exact h.moveOut hnum hlocal (fun hpast => by cases hpast) (fun _ _ hg => hg) rfl
      | true =>
        exact h.moveOut hnum (Or.inl ⟨hlocal.2.1, hlocal.2.2, rfl, rfl⟩) (fun hpast => by cases hpast)
          (fun _ _ hg => hg) rfl
    next hp =>
      rw [hp] at hlocal
      have hpast : fl.past = true := by rw [Flush.past, hp]
      split
      next hc =>
        exact h.moveOut hnum (Or.inl ⟨hlocal.2.1, hlocal.2.2, hc, rfl⟩)
          (fun hpast => by cases hpast) (h.release hf hpast) rfl
      next =>
        exact h.moveOut hnum hlocal (fun _ => h.gate f fl hf hpast) (fun _ _ hg => hg) rfl
    next => exact h

/-- Only the flush that holds the lock reads the buckets. -/
theorem inv_enter (h : Inv s) (f : Nat) : Inv (s.step (.enter f)) := by
  simp only [step]
  split
  next => exact h
  next fl hf =>
    have hlocal := h.phases f fl hf
    unfold Flush.Local at hlocal
    split
    next hp hgate =>
      rw [hp] at hlocal
      refine h.moveOut (h.numbered f fl hf) ⟨rfl, hlocal.2⟩ (fun _ => rfl) (fun g _ hg => ?_) rfl
      rw [hgate] at hg
      cases hg
    next => exact h

theorem inv_abandon (h : Inv s) (f : Nat) : Inv (s.step (.abandon f)) := by
  simp only [step]
  split
  next => exact h
  next fl hf =>
    have hlocal := h.phases f fl hf
    unfold Flush.Local at hlocal
    split
    next hp hc =>
      rw [hp] at hlocal
      exact h.moveOut (h.numbered f fl hf) (Or.inl ⟨hlocal.2.1, hlocal.2.2, hc, rfl⟩)
        (fun hpast => by cases hpast) (fun _ _ hg => hg) rfl
    next => exact h

theorem inv_leave (h : Inv s) (f : Nat) : Inv (s.step (.leave f)) := by
  simp only [step]
  split
  next => exact h
  next fl hf =>
    have hlocal := h.phases f fl hf
    unfold Flush.Local at hlocal
    split
    next firstErr hp =>
      rw [hp] at hlocal
      have hpast : fl.past = true := by rw [Flush.past, hp]
      exact h.moveOut (h.numbered f fl hf) (Or.inr hlocal) (fun hpast => by cases hpast)
        (h.release hf hpast) rfl
    next => exact h

/-- What a flush takes with it is a copy of the buckets that are over. -/
theorem inv_snapshot (h : Inv s) (f : Nat) : Inv (s.step (.snapshot f)) := by
  simp only [step]
  split
  next => exact h
  next fl hf =>
    have hlocal := h.phases f fl hf
    unfold Flush.Local at hlocal
    split
    next hp =>
      rw [hp] at hlocal
      obtain ⟨hpassed, _, hlog⟩ := hlocal
      have hpast : fl.past = true := by rw [Flush.past, hp]
      refine h.put (h.numbered f fl hf) ⟨hpassed, ?_⟩ (fun _ => h.gate f fl hf hpast) ?_
        fun _ _ _ hp => by cases hp
      · refine ⟨?_, ?_, ?_, ?_⟩
        · rw [hlog, List.map_nil, List.nil_append]
        · rw [hlog]
          rfl
        · rw [hlog, List.map_nil, List.nil_append]
          exact s.pairwise_candidates fl.boundary
        · rw [hlog, List.map_nil, List.nil_append]
          intro c hc
          obtain ⟨_, _, _, hbefore⟩ := mem_candidates hc
          exact hbefore
      · intro c hc
        obtain ⟨b, hb, heq, _⟩ := mem_candidates hc
        have hid : c.bucket = b.id := by rw [heq]; rfl
        have hsamples : c.samples = b.samples := by rw [heq]; rfl
        refine ⟨hid ▸ h.ids c.key b hb, ?_⟩
        rw [if_neg List.not_mem_nil]
        exact ⟨b, hb, hid.symm, hsamples ▸ List.prefix_refl _⟩
    next => exact h

/-- A minute that is written is accounted for, stored or not. -/
theorem inv_write (h : Inv s) (f : Nat) (err : Option FlushError) (stored : Bool) :
    Inv (s.step (.write f err stored)) := by
  simp only [step]
  split
  next => exact h
  next fl hf =>
    have hlocal := h.phases f fl hf
    unfold Flush.Local at hlocal
    split
    next c todo firstErr hp =>
      rw [hp] at hlocal
      have hgate : s.gate = some f := h.gate f fl hf (by rw [Flush.past, hp])
      have hpending : ∀ d ∈ c :: todo, s.Tracked fl.removed d := fun d hd =>
        h.tracked f fl hf d (by rw [Flush.pending, hp]; exact hd)
      have hnum := h.numbered f fl hf
      unfold Aggregator.write
      cases err with
      | none =>
        have hstore : Inv { s with
            rows := s.rows.insert ⟨c.record.serverID, c.record.minuteUnix⟩ c.record.payload
            written := s.written ++ [c] } := h.store (List.subset_append_left _ _)
        refine @Inv.put F _ _ f hstore
          { fl with phase := .cleaning c none todo firstErr } hnum hlocal (fun _ => hgate)
          (fun d hd => (hpending d hd).congr rfl rfl) fun d _ _ hd => ?_
        cases hd
        exact List.mem_append_right _ List.mem_cons_self
      | some e =>
        have hput : Inv (s.putFlush f { fl with phase := .cleaning c (some e) todo firstErr }) :=
          h.put hnum hlocal (fun _ => hgate) hpending fun _ _ _ hd => by cases hd
        dsimp only
        split
        next => exact hput.store (List.Subset.refl _)
        next => exact hput
    next => exact h

/-- The bucket in the map is the candidate's as long as its server was not removed. -/
theorem same_of_tracked {removed : List Int} {c : Candidate F} (h : s.Tracked removed c) :
    s.same c = !decide (c.key.serverID ∈ removed) := by
  obtain ⟨_, hbucket⟩ := h
  unfold same
  split at hbucket
  next hmem =>
    rw [decide_eq_true hmem]
    cases hb : s.bucket? c.key with
    | none => rfl
    | some b => exact beq_false_of_ne (hbucket b hb)
  next hmem =>
    obtain ⟨b, hb, hid, _⟩ := hbucket
    rw [decide_eq_false hmem, hb, Option.any_some, hid, beq_self_eq_true]
    rfl

/-- **A bucket the cleanup drops holds what was written**: the revision is the number of its
reports, which does not wrap. -/
theorem samples_of_unchanged (h : Inv s) {removed : List Int} {c : Candidate F}
    (htracked : s.Tracked removed c) (hsame : s.same c = true) (hunchanged : s.unchanged c = true) :
    ∃ b, s.bucket? c.key = some b ∧ b.samples = c.samples := by
  have hmem : c.key.serverID ∉ removed := fun hmem => by
    rw [same_of_tracked htracked, decide_eq_true hmem] at hsame
    cases hsame
  obtain ⟨_, hbucket⟩ := htracked
  rw [if_neg hmem] at hbucket
  obtain ⟨b, hb, _, hbefore⟩ := hbucket
  refine ⟨b, hb, (hbefore.eq_of_length ?_).symm⟩
  have hrev : b.revision = c.revision := by
    rw [unchanged, hb] at hunchanged
    exact beq_iff_eq.mp hunchanged
  have hsize := h.sizes c.key b hb
  have hlen := hbefore.length_le
  rw [b.revision_eq, c.revision_eq] at hrev
  have hnat := congrArg UInt64.toNat hrev
  rwa [UInt64.toNat_ofNat_of_lt' hsize,
    UInt64.toNat_ofNat_of_lt' (Nat.lt_of_le_of_lt hlen hsize), eq_comm] at hnat

/-- Only buckets written in this flush go. -/
theorem inv_clean (h : Inv s) (f : Nat) : Inv (s.step (.clean f)) := by
  simp only [step]
  split
  next => exact h
  next fl hf =>
    have hlocal := h.phases f fl hf
    unfold Flush.Local at hlocal
    split
    next c err todo firstErr hp =>
      rw [hp] at hlocal
      obtain ⟨hpassed, hprogress⟩ := hlocal
      have hpast : fl.past = true := by rw [Flush.past, hp]
      have hgate : s.gate = some f := h.gate f fl hf hpast
      have hpending : ∀ d ∈ c :: todo, s.Tracked fl.removed d := fun d hd =>
        h.tracked f fl hf d (by rw [Flush.pending, hp]; exact hd)
      have htracked := hpending c List.mem_cons_self
      have hkept : (if s.same c then err else none) =
          if decide (c.key.serverID ∈ fl.removed) then none else err := by
        rw [same_of_tracked htracked]
        cases decide (c.key.serverID ∈ fl.removed) <;> rfl
      unfold Aggregator.clean
      have hput : Inv (s.putFlush f { fl with
          phase := .writing todo (firstErr.or (if s.same c then err else none))
          log := fl.log ++ [⟨c, err, decide (c.key.serverID ∈ fl.removed)⟩] }) := by
        refine h.put (h.numbered f fl hf) ⟨hpassed, ?_⟩ (fun _ => hgate)
          (fun d hd => hpending d (List.mem_cons_of_mem _ hd)) fun _ _ _ hd => by cases hd
        rw [hkept]
        exact hprogress.snoc _
      dsimp only
      split
      next hdrop =>
        simp only [Bool.and_eq_true, Option.isNone_iff_eq_none] at hdrop
        obtain ⟨⟨hsame, rfl⟩, hunchanged⟩ := hdrop
        obtain ⟨b, hb, hsamples⟩ := samples_of_unchanged h htracked hsame hunchanged
        refine hput.erase hb (fun g gl hg d hd => ?_) fun x hx =>
          ⟨c, h.wrote f fl c todo firstErr hf hp, hsamples ▸ hx⟩
        rw [flush?_putFlush] at hg
        split at hg
        next => cases hg; exact hprogress.key_ne hd
        next hne =>
          have hother := h.gate g gl hg (Flush.past_of_pending hd)
          exact absurd (Option.some.inj (hother.symm.trans hgate)) hne
      next => exact hput
    next => exact h

/-- Every step within the bounds keeps every sample in one place. -/
theorem inv_step {a : Action F} (hok : InBounds s a) (h : Inv s) : Inv (s.step a) := by
  cases a with
  | accept serverID report receivedAt => exact inv_accept h hok
  | removeServer serverID => exact inv_removeServer h serverID
  | call boundary => exact inv_call h boundary
  | cancel f => exact inv_cancel h f
  | check f => exact inv_check h f
  | enter f => exact inv_enter h f
  | abandon f => exact inv_abandon h f
  | snapshot f => exact inv_snapshot h f
  | write f err stored => exact inv_write h f err stored
  | clean f => exact inv_clean h f
  | leave f => exact inv_leave h f

end Step

/-! ## What every run keeps -/

/-- What the flushes of a state have done, and that no report was lost. -/
structure Sound (s : Aggregator F) : Prop where
  /-- An accepted report is in its bucket or in a record that was written. -/
  saved : ∀ x ∈ s.accepted, s.Saved x
  /-- One flush at a time is past the gate. -/
  exclusive : ∀ f g fl gl, s.flush? f = some fl → s.flush? g = some gl → fl.past = true →
    gl.past = true → f = g
  /-- A flush writes in order, each minute once, and only minutes before its boundary. -/
  ordered : ∀ f fl, s.flush? f = some fl → (fl.upserts.Pairwise fun a b => a.key.LT b.key) ∧
    ∀ c ∈ fl.upserts, c.key.before fl.boundary = true
  /-- The cleanup leaves the buckets of a server that was removed meanwhile. -/
  removed : ∀ f fl c err todo firstErr, s.flush? f = some fl →
    fl.phase = .cleaning c err todo firstErr → c.key.serverID ∈ fl.removed →
      (s.step (.clean f)).buckets = s.buckets
  /-- A flush that has returned from behind the gate has been through its candidates and returns
  their first error, or it found its context done before it took any. -/
  returns : ∀ f fl err, s.flush? f = some fl → fl.phase = .returned err → fl.passed = true →
    (∃ cs, fl.taken = some cs ∧ fl.log.map Attempt.candidate = cs ∧ err = firstError fl.log) ∨
      (fl.taken = none ∧ fl.log = [] ∧ fl.cancelled = true ∧ err = some .context)

theorem Inv.sound {s : Aggregator F} (h : Inv s) : Sound s where
  saved := h.saved
  exclusive := fun f g fl gl hf hg hfp hgp =>
    Option.some.inj ((h.gate f fl hf hfp).symm.trans (h.gate g gl hg hgp))
  ordered := fun f fl hf => (h.phases f fl hf).upserts
  removed := fun f fl c err todo firstErr hf hp hmem => by
    have htracked := h.tracked f fl hf c (by rw [Flush.pending, hp]; exact List.mem_cons_self)
    have hsame := same_of_tracked htracked
    rw [decide_eq_true hmem] at hsame
    simp only [step, hf, hp, clean, hsame, Bool.not_true, Bool.false_and, Bool.false_eq_true,
      if_false]
    rfl
  returns := fun f fl err hf hp _ => by
    have hlocal := h.phases f fl hf
    unfold Flush.Local at hlocal
    rw [hp] at hlocal
    rcases hlocal with hdone | ⟨_, hprogress⟩
    · exact Or.inr hdone
    · refine Or.inl ⟨_, hprogress.taken, (List.append_nil _).symm, hprogress.first⟩

/-- **No report is discarded without a write that contains it**, and every flush keeps to its
candidates, in every run in which no bucket takes 2^64 reports. An accepted report is in its bucket
or in a record that was written, one flush at a time is past the gate, and one that has been through
its candidates returns their first error. -/
theorem sound_of_guarded (as : List (Action F)) (h : Guarded step InBounds initial as) :
    Sound (run step initial as) := by
  have hinv : Inv (run step initial as) :=
    h.invariant (fun s _ hok (hi : Inv s) => inv_step hok hi) inv_initial
  exact hinv.sound

end Aggregator

/-! ## Three runs -/

namespace Aggregator

/-- A report of server 1 in the first minute. -/
def sample : Action Exact := .accept 1 (.ofCPU (.fin 50)) (.ofUnix 10)

/-- A flush of the first minute, as far as the snapshot. -/
def upToSnapshot (f : Nat) : List (Action Exact) :=
  [.call (.ofUnix 60), .check f, .enter f, .check f, .snapshot f]

/-- A report comes while the bucket is being written; the server of another is removed. -/
def busy : List (Action Exact) :=
  [sample, .accept 2 (.ofCPU (.fin 20)) (.ofUnix 20)] ++ upToSnapshot 0 ++
    [.write 0 none false, sample, .clean 0, .removeServer 2,
      .write 0 (some (.write "locked")) false, .clean 0, .leave 0]

instance decidableInBounds (s : Aggregator F) : ∀ a, Decidable (InBounds s a)
  | .accept serverID _ receivedAt =>
    match hb : s.bucket? (.of serverID receivedAt) with
    | none => isTrue fun b h => by rw [hb] at h; cases h
    | some b =>
      decidable_of_iff (b.samples.length + 1 < 2 ^ 64)
        ⟨fun hlt b' h => by rw [hb] at h; exact Option.some.inj h ▸ hlt, fun h => h b hb⟩
  | .removeServer _ | .call _ | .cancel _ | .check _ | .enter _ | .abandon _ | .snapshot _
  | .write _ _ _ | .clean _ | .leave _ => isTrue trivial

theorem busy_sound :
    ((run step initial busy).accepted.length = 2 ∧ (run step initial busy).written.length = 1) ∧
      Sound (run step initial busy) :=
  ⟨by decide +kernel, sound_of_guarded busy (by decide +kernel)⟩

/-- The context is done between the gate and the second check. -/
def doneInGate : List (Action Exact) :=
  [.call (.ofUnix 60), .check 0, .enter 0, .cancel 0, .check 0]

/-- Reports for one bucket, in number. -/
theorem run_accepts {serverID : Int} {report : AgentReport F} {receivedAt : Time} (n : Nat)
    {s : Aggregator F} {b : Bucket F} (hb : s.bucket? (.of serverID receivedAt) = some b) :
    let s' := run step s (List.replicate n (.accept serverID report receivedAt))
    (∃ b', s'.bucket? (.of serverID receivedAt) = some b' ∧ b'.id = b.id ∧
      b'.revision = b.revision + UInt64.ofNat n) ∧
      s'.flushes = s.flushes ∧ s'.written = s.written ∧ s.accepted ⊆ s'.accepted := by
  induction n generalizing s b with
  | zero => exact ⟨⟨b, hb, rfl, (UInt64.add_zero _).symm⟩, rfl, rfl, List.Subset.refl _⟩
  | succ n ih =>
    have hadd : (s.step (.accept serverID report receivedAt)).bucket? (.of serverID receivedAt) =
        some (b.add { number := s.nextSample, serverID, report, receivedAt }) := by
      refine (bucket?_accept _ _).trans ?_
      rw [Sample.key, if_pos rfl, hb, Option.getD_some]
    obtain ⟨⟨b', hb', hid, hrev⟩, hflushes, hwritten, hsub⟩ := ih hadd
    refine ⟨⟨b', hb', hid, ?_⟩, hflushes, hwritten,
      List.Subset.trans (List.subset_append_left _ _) hsub⟩
    rw [hrev, Bucket.add, UInt64.ofNat_add, UInt64.add_assoc, UInt64.add_comm 1]
    rfl

/-- A bucket with the revision of its candidate goes, whatever it holds. -/
theorem run_drop {s : Aggregator F} {f : Nat} {fl : Flush F} {c : Candidate F} {b : Bucket F}
    {todo : List (Candidate F)} {firstErr : Option FlushError} (hf : s.flush? f = some fl)
    (hp : fl.phase = .writing (c :: todo) firstErr)
    (hb : s.bucket? c.key = some b) (hid : b.id = c.bucket) (hrev : b.revision = c.revision) :
    let s' := run step s [.write f none false, .clean f]
    s'.bucket? c.key = none ∧ s'.written = s.written ++ [c] ∧ s'.accepted = s.accepted := by
  intro s'
  have hwrite : s.step (.write f none false) = s.write f fl c todo firstErr none false := by
    simp only [step, hf, hp]
  have hf' : (s.write f fl c todo firstErr none false).flush? f =
      some { fl with phase := .cleaning c none todo firstErr } :=
    (flush?_putFlush f).trans (if_pos rfl)
  have hb' : (s.write f fl c todo firstErr none false).bucket? c.key = some b := hb
  have hclean : s' = (s.write f fl c todo firstErr none false).clean f
      { fl with phase := .cleaning c none todo firstErr } c todo firstErr none := by
    change (s.step (.write f none false)).step (.clean f) = _
    rw [hwrite]
    simp only [step, hf']
  have hsame : (s.write f fl c todo firstErr none false).same c = true := by
    rw [same, hb', Option.any_some, hid, beq_self_eq_true]
  have hunchanged : (s.write f fl c todo firstErr none false).unchanged c = true := by
    rw [unchanged, hb', Option.any_some, hrev, beq_self_eq_true]
  rw [hclean, clean, hsame, hunchanged]
  simp only [Option.isNone_none, Bool.and_self, if_true]
  exact ⟨(bucket?_erase _ _).trans (if_pos rfl), rfl, rfl⟩

/-- After the snapshot of a bucket of one report, `n + 1` more come before it is written. -/
def overtaken (n : Nat) : List (Action Exact) :=
  (sample :: upToSnapshot 0 ++ [sample]) ++ List.replicate n sample ++
    [.write 0 none false, .clean 0]

/-- When they bring the revision back to where it was, they are lost. -/
theorem overtaken_lost {n : Nat} (hn : 1 + UInt64.ofNat n = 0) :
    ∃ x ∈ (run step initial (overtaken n)).accepted,
      ¬ (run step initial (overtaken n)).Saved x := by
  have hstart : ∃ fl c b x,
      (run step initial (sample :: upToSnapshot 0 ++ [sample])).flush? 0 = some fl ∧
      fl.phase = .writing [c] none ∧ c.key = .of 1 (.ofUnix 10) ∧
      c.samples.map Sample.number = [0] ∧
      (run step initial (sample :: upToSnapshot 0 ++ [sample])).bucket? (.of 1 (.ofUnix 10)) =
        some b ∧ b.id = c.bucket ∧ b.revision = c.revision + 1 ∧
      (run step initial (sample :: upToSnapshot 0 ++ [sample])).written = [] ∧
      x ∈ (run step initial (sample :: upToSnapshot 0 ++ [sample])).accepted ∧
      x.number = 1 ∧ x.key = .of 1 (.ofUnix 10) :=
    ⟨_, _, _, _, rfl, rfl, rfl, rfl, rfl, rfl, rfl, rfl,
      List.mem_cons_of_mem _ List.mem_cons_self, rfl, rfl⟩
  rw [overtaken, run_append, run_append]
  generalize run step initial (sample :: upToSnapshot 0 ++ [sample]) = s at hstart ⊢
  unfold sample
  obtain ⟨fl, c, b, x, hf, hp, hkey, hnumbers, hb, hid, hrev, hwritten, hx, hnumber, hxkey⟩ := hstart
  obtain ⟨⟨b', hb', hid', hrev'⟩, hflushes, hwritten', hsub⟩ :=
    @run_accepts Exact _ 1 (.ofCPU (.fin 50)) (.ofUnix 10) n s b hb
  have hf' := (congrArg (AList.lookup 0) hflushes).trans hf
  obtain ⟨hgone, hafter, haccepted⟩ := run_drop hf' hp (hkey ▸ hb') (hid'.trans hid)
    (by rw [hrev', hrev, UInt64.add_assoc, hn, UInt64.add_zero])
  refine ⟨x, haccepted ▸ hsub hx, ?_⟩
  rintro (⟨b, hlive, _⟩ | ⟨d, hd, hmem⟩)
  · rw [hxkey, ← hkey] at hlive
    cases hgone.symm.trans hlive
  · rw [hafter, hwritten', hwritten, List.nil_append, List.mem_singleton] at hd
    have hnum := List.mem_map_of_mem (f := Sample.number) hmem
    rw [hd, hnumbers, hnumber, List.mem_singleton] at hnum
    exact absurd hnum Nat.one_ne_zero

/-- A flush returns an error that is not of a candidate, and 2^64 reports after a snapshot are in no
bucket and no record. -/
theorem doneInGate_overtaken :
    (∃ fl, (run step initial doneInGate).flush? 0 = some fl ∧ fl.passed = true ∧
      fl.phase = .returned (some .context) ∧ firstError fl.log = none) ∧
    ∃ x ∈ (run step initial (overtaken (2 ^ 64 - 1))).accepted,
      ¬ (run step initial (overtaken (2 ^ 64 - 1))).Saved x :=
  ⟨⟨_, rfl, rfl, rfl, rfl⟩, overtaken_lost (by decide)⟩

end Aggregator

end TinyProbe.History
