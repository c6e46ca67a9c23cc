import TinyProbe.History.Conservation

/-!
# The stored row of a minute

`UpsertMinute` replaces the row of a minute. As long as the bucket of the minute lives, every record
made of it contains the ones before. A report that comes when a flush has written the minute and
dropped its bucket starts a new one, and the next flush replaces the row of the whole minute by what
came late (`late_not_grows`). Such a report is one whose `receivedAt` was taken before it waited for
the coordinator's lock.

In runs without one (`OnTime`), and for a server that is not removed, each successful write of a
minute contains the previous one, and after a last flush the row is the aggregate of all reports
accepted for the minute (`grows_of_guarded`).
-/

namespace TinyProbe.History

open TinyProbe.Run Protocol

variable {F : Type} [Float64 F]

/-- The record of a candidate is about the key it was taken from. -/
theorem Candidate.key_record (c : Candidate F) :
    (⟨c.record.serverID, c.record.minuteUnix⟩ : Key) = c.key := by
  rw [c.record_eq]
  rfl

namespace Aggregator

/-- The server is not removed, and no report of it comes for a minute that a flush has written and
dropped. -/
def OnTime (server : Int) (s : Aggregator F) : Action F → Prop
  | .accept serverID report receivedAt => InBounds s (.accept serverID report receivedAt) ∧
    (serverID = server → s.bucket? (.of serverID receivedAt) = none →
      ∀ c ∈ s.written, c.key ≠ .of serverID receivedAt)
  | .removeServer serverID => serverID ≠ server
  | _ => True

/-- Reports that are on time are in bounds. -/
theorem OnTime.inBounds {server : Int} {s : Aggregator F} {a : Action F} (h : OnTime server s a) :
    InBounds s a := by
  cases a with
  | accept serverID report receivedAt => exact h.1
  | _ => trivial

/-- Each write of a minute of the server contains the earlier ones. -/
def Grows (server : Int) (s : Aggregator F) : Prop :=
  s.written.Pairwise fun c d => c.key = d.key → c.key.serverID = server → c.samples ⊆ d.samples

/-- The row of a key is what all its accepted reports add up to. -/
def Complete (s : Aggregator F) (key : Key) : Prop :=
  s.row? key =
    some ((aggregate (s.acceptedFor key)).finish key.serverID key.minuteUnix).payload

/-! ## The invariant -/

/-- What a flush holds is not behind what was written, and the row it has just written is there. -/
structure Clear (server : Int) (s : Aggregator F) (fl : Flush F) : Prop where
  unremoved : fl.pending = [] ∨ server ∉ fl.removed
  ahead : ∀ c ∈ fl.pending, c.key.serverID = server → ∀ d ∈ s.written, d.key = c.key →
    d.samples <+: c.samples
  stored : ∀ c todo firstErr, fl.phase = .cleaning c none todo firstErr →
    s.row? c.key = some c.record.payload

/-- A live bucket of the server holds all that was accepted for its minute, and no less than what
was written; a minute without one has all of it in its row. -/
structure Kept (server : Int) (s : Aggregator F) : Prop where
  live : ∀ key b, key.serverID = server → s.bucket? key = some b →
    s.acceptedFor key = b.samples ∧ ∀ c ∈ s.written, c.key = key → c.samples <+: b.samples
  dropped : ∀ key, key.serverID = server → s.bucket? key = none →
    s.acceptedFor key = [] ∨ (∃ c ∈ s.written, c.key = key) ∧ s.Complete key
  clear : ∀ f fl, s.flush? f = some fl → Clear server s fl
  grows : Grows server s

section Step

variable {server : Int} {s : Aggregator F} {f : Nat} {fl : Flush F}

/-- At first nothing has been accepted or written. -/
theorem kept_initial : Kept server (initial : Aggregator F) where
  live := fun _ _ _ h => nomatch h
  dropped := fun _ _ _ => Or.inl rfl
  clear := fun _ _ h => nomatch h
  grows := List.Pairwise.nil

/-- Outside its loop a flush holds no candidates. -/
theorem pending_of_outside (h : Phase.outside fl.phase = true) : fl.pending = [] := by
  unfold Flush.pending
  cases hp : fl.phase with
  | writing todo firstErr => rw [hp] at h; cases h
  | cleaning c err todo firstErr => rw [hp] at h; cases h
  | _ => rfl

/-- Outside the loop there is nothing to keep. -/
theorem clear_of_outside (h : Phase.outside fl.phase = true) : Clear server s fl where
  unremoved := Or.inl (pending_of_outside h)
  ahead := fun c hc => by
    rw [pending_of_outside h] at hc
    exact absurd hc List.not_mem_nil
  stored := fun c todo firstErr hp => by
    rw [hp] at h
    cases h

/-- What a flush holds is compared with the writes and the rows alone. -/
theorem Clear.congr {s' : Aggregator F} (h : Clear server s fl) (hwritten : s'.written = s.written)
    (hrows : s'.rows = s.rows) : Clear server s' fl where
  unremoved := h.unremoved
  ahead := by rw [hwritten]; exact h.ahead
  stored := fun c todo firstErr hp =>
    (congrArg (AList.lookup c.key) hrows).trans (h.stored c todo firstErr hp)

/-- A step of one flush that leaves buckets and tables. -/
theorem Kept.put (h : Kept server s) {fl' : Flush F} (hclear : Clear server s fl')
    (gate : Option Nat) (nextFlush : Nat) :
    Kept server { s.putFlush f fl' with gate, nextFlush } where
  live := h.live
  dropped := h.dropped
  clear := fun g gl hg => by
    have hg' := (flush?_putFlush g).symm.trans hg
    split at hg'
    next => exact (Option.some.inj hg' ▸ hclear).congr rfl rfl
    next => exact (h.clear g gl hg').congr rfl rfl
  grows := h.grows

/-- The steps of a flush outside its loop. -/
def Action.quiet : Action F → Bool
  | .call _ | .cancel _ | .check _ | .enter _ | .abandon _ | .leave _ => true
  | _ => false

/-- **A quiet step** takes one flush to a phase outside the loop, or marks it cancelled. -/
theorem step_quiet {a : Action F} (h : a.quiet = true) :
    s.step a = s ∨ ∃ f fl' gate nextFlush,
      s.step a = { s.putFlush f fl' with gate, nextFlush } ∧ (Phase.outside fl'.phase = true ∨
        ∃ fl, s.flush? f = some fl ∧ fl' = { fl with cancelled := true }) := by
  cases a with
  | call boundary => exact Or.inr ⟨_, _, _, _, rfl, Or.inl rfl⟩
  | cancel f =>
    simp only [step]
    split
    next => exact Or.inl rfl
    next fl hf => exact Or.inr ⟨f, _, _, _, rfl, Or.inr ⟨fl, hf, rfl⟩⟩
  | check f =>
    simp only [step]
    split
    next => exact Or.inl rfl
    next fl hf =>
      split
      next => exact Or.inr ⟨_, _, _, _, rfl, Or.inl (by dsimp only; split <;> rfl)⟩
      next => split <;> exact Or.inr ⟨_, _, _, _, rfl, Or.inl rfl⟩
      next => exact Or.inl rfl
  | enter f | abandon f | leave f =>
    simp only [step]
    split
    next => exact Or.inl rfl
    next fl hf =>
      split
      next => exact Or.inr ⟨_, _, _, _, rfl, Or.inl rfl⟩
      next => exact Or.inl rfl
  | accept _ _ _ | removeServer _ | snapshot _ | write _ _ _ | clean _ => cases h

/-- Outside its loop a flush has nothing to keep. -/
theorem kept_quiet (h : Kept server s) {a : Action F} (hquiet : a.quiet = true) :
    Kept server (s.step a) := by
  rcases step_quiet hquiet with heq | ⟨f, fl', gate, nextFlush, heq, hfl⟩
  · rwa [heq]
  · rw [heq]
    refine h.put ?_ gate nextFlush
    rcases hfl with hout | ⟨fl, hf, rfl⟩
    · exact clear_of_outside hout
    · obtain ⟨hunremoved, hahead, hstored⟩ := h.clear f fl hf
      exact ⟨hunremoved, hahead, hstored⟩

/-- An accepted report is added to those of its key. -/
theorem acceptedFor_accept (x : Sample F) (key : Key) :
    (s.accept x).acceptedFor key =
      if x.key = key then s.acceptedFor key ++ [x] else s.acceptedFor key := by
  unfold acceptedFor accept
  simp only [List.filter_append, List.filter_cons, List.filter_nil, beq_iff_eq]
  split
  next => rfl
  next => exact List.append_nil _

/-- A report on time starts a bucket only for a minute that was never written. -/
theorem kept_accept (h : Kept server s) {x : Sample F}
    (hok : x.serverID = server → s.bucket? x.key = none → ∀ c ∈ s.written, c.key ≠ x.key) :
    Kept server (s.accept x) := by
  refine ⟨fun key b hserver hb => ?_, fun key hserver hb => ?_, fun g gl hg =>
    (h.clear g gl hg).congr rfl rfl, h.grows⟩
  · rw [bucket?_accept] at hb
    rw [acceptedFor_accept]
    split at hb
    next heq =>
      rw [if_pos heq.symm, heq]
      have hxserver : x.key.serverID = server := heq ▸ hserver
      cases hold : s.bucket? x.key with
      | none =>
        have hempty : s.acceptedFor x.key = [] := by
          rcases h.dropped x.key (heq ▸ hserver) hold with hnil | ⟨⟨c, hc, hkey⟩, _⟩
          · exact hnil
          · exact absurd hkey (hok hxserver hold c hc)
        rw [hold] at hb
        rw [← Option.some.inj hb, hempty]
        exact ⟨rfl, fun c hc hkey => absurd hkey (hok hxserver hold c hc)⟩
      | some b' =>
        obtain ⟨haccepted, hwritten⟩ := h.live x.key b' (heq ▸ hserver) hold
        rw [hold] at hb
        rw [← Option.some.inj hb, haccepted]
        exact ⟨rfl, fun c hc hkey => (hwritten c hc hkey).trans (List.prefix_append _ _)⟩
    next hne =>
      rw [if_neg (Ne.symm hne)]
      exact h.live key b hserver hb
  · rw [bucket?_accept] at hb
    split at hb
    next => cases hb
    next hne =>
      rw [Complete, acceptedFor_accept, if_neg (Ne.symm hne)]
      exact h.dropped key hserver hb

/-- What was accepted of other servers stays when one is removed. -/
theorem acceptedFor_removeServer {serverID : Int} {key : Key} (hne : key.serverID ≠ serverID) :
    (s.removeServer serverID).acceptedFor key = s.acceptedFor key := by
  rw [acceptedFor, removeServer, List.filter_filter, acceptedFor]
  refine List.filter_congr fun x _ => ?_
  by_cases hkey : x.key = key
  · have hx : x.key.serverID ≠ serverID := hkey ▸ hne
    have hbne : (x.serverID != serverID) = true := bne_iff_ne.mpr hx
    rw [hbne, Bool.and_true]
  · rw [beq_false_of_ne hkey, Bool.false_and]

/-- Another server's removal leaves the buckets and rows of this one. -/
theorem kept_removeServer (h : Kept server s) {serverID : Int} (hne : serverID ≠ server) :
    Kept server (s.removeServer serverID) := by
  have hbucket : ∀ key : Key, key.serverID = server →
      (s.removeServer serverID).bucket? key = s.bucket? key := fun key hserver => by
    rw [bucket?_removeServer, if_neg fun heq => hne (heq.symm.trans hserver)]
  have haccepted : ∀ key : Key, key.serverID = server →
      (s.removeServer serverID).acceptedFor key = s.acceptedFor key := fun key hserver =>
    acceptedFor_removeServer fun heq => hne (heq.symm.trans hserver)
  refine ⟨fun key b hserver hb => ?_, fun key hserver hb => ?_, fun g gl hg => ?_, h.grows⟩
  · rw [haccepted key hserver]
    exact h.live key b hserver (hbucket key hserver ▸ hb)
  · rw [Complete, haccepted key hserver]
    exact h.dropped key hserver (hbucket key hserver ▸ hb)
  · obtain ⟨gl, hg', rfl⟩ := Option.map_eq_some_iff.mp ((flush?_removeServer serverID).symm.trans hg)
    obtain ⟨hunremoved, hahead, hstored⟩ := h.clear g gl hg'
    refine ⟨hunremoved.imp id fun hmem hcons => ?_, hahead, hstored⟩
    exact (List.mem_cons.mp hcons).elim (fun heq => hne heq.symm) hmem

/-- The candidates of a flush are buckets, and those are ahead of what was written. -/
theorem kept_snapshot (h : Kept server s) (f : Nat) : Kept server (s.step (.snapshot f)) := by
  simp only [step]
  split
  next => exact h
  next fl hf =>
    split
    next hp =>
      have hclear : Clear server s { fl with
          phase := .writing (s.candidates fl.boundary) none
          taken := some (s.candidates fl.boundary), removed := [] } := by
        refine ⟨Or.inr List.not_mem_nil, fun c hc hserver d hd hkey => ?_, fun _ _ _ hd => by cases hd⟩
        obtain ⟨b, hb, heq, _⟩ := mem_candidates hc
        have hsamples : c.samples = b.samples := by rw [heq]; rfl
        exact hsamples ▸ (h.live c.key b hserver hb).2 d hd hkey
      exact h.put hclear s.gate s.nextFlush
    next => exact h

/-- The bucket of a candidate of the server is live. -/
theorem bucket_of_pending (hinv : Inv s) (h : Kept server s) (hf : s.flush? f = some fl)
    {c : Candidate F} (hc : c ∈ fl.pending) (hserver : c.key.serverID = server) :
    ∃ b, s.bucket? c.key = some b ∧ b.id = c.bucket ∧ c.samples <+: b.samples := by
  have hmem : c.key.serverID ∉ fl.removed := by
    rw [hserver]
    exact (h.clear f fl hf).unremoved.resolve_left (List.ne_nil_of_mem hc)
  have htracked := (hinv.tracked f fl hf c hc).2
  rwa [if_neg hmem] at htracked

/-- **A write of a candidate** extends the writes of its minute and replaces the row. -/
theorem kept_upsert (hinv : Inv s) (h : Kept server s) {c : Candidate F}
    {todo : List (Candidate F)} {firstErr : Option FlushError} (hf : s.flush? f = some fl)
    (hp : fl.phase = .writing (c :: todo) firstErr) (err : Option FlushError)
    {written : List (Candidate F)}
    (hwritten : written = s.written ∧ err ≠ none ∨ written = s.written ++ [c]) :
    Kept server { (s.putFlush f { fl with phase := .cleaning c err todo firstErr }).upsertMinute
      c.record with written } := by
  have hpending : fl.pending = c :: todo := by rw [Flush.pending, hp]
  have hc : c ∈ fl.pending := hpending ▸ List.mem_cons_self
  have hclear := h.clear f fl hf
  have hold : ∀ d ∈ written, d ∈ s.written ∨ d = c := fun d hd => by
    rcases hwritten with ⟨heq, _⟩ | heq
    · exact Or.inl (heq ▸ hd)
    · exact (List.mem_append.mp (heq ▸ hd)).imp id List.mem_singleton.mp
  have hnew : ∀ d ∈ s.written, d ∈ written := fun d hd => by
    rcases hwritten with ⟨heq, _⟩ | heq
    · exact heq ▸ hd
    · exact heq ▸ List.mem_append_left _ hd
  have hrow : ∀ key : Key, ({ (s.putFlush f { fl with phase := .cleaning c err todo firstErr
        }).upsertMinute c.record with written } : Aggregator F).row? key =
      if key = c.key then some c.record.payload else s.row? key := fun key => by
    rw [← c.key_record]
    exact Map.lookup_insert _ _ _ _
  have hgate : s.gate = some f := hinv.gate f fl hf (Flush.past_of_pending hc)
  have hkeyne : ∀ d ∈ todo, d.key ≠ c.key := fun d hd => by
    have hlocal := hinv.phases f fl hf
    unfold Flush.Local at hlocal
    rw [hp] at hlocal
    exact hlocal.2.key_ne hd
  refine ⟨fun key b hserver hb => ?_, fun key hserver hb => ?_, fun g gl hg => ?_, ?_⟩
  · obtain ⟨haccepted, hbefore⟩ := h.live key b hserver hb
    refine ⟨haccepted, fun d hd hkey => ?_⟩
    rcases hold d hd with hd | rfl
    · exact hbefore d hd hkey
    · obtain ⟨b', hb', _, hbefore⟩ := bucket_of_pending hinv h hf hc (hkey ▸ hserver)
      have hsame : s.bucket? key = some b := hb
      rw [hkey, hsame] at hb'
      exact Option.some.inj hb' ▸ hbefore
  · have hne : key ≠ c.key := fun heq => by
      obtain ⟨b', hb', _⟩ := bucket_of_pending hinv h hf hc (heq ▸ hserver)
      have hnone : s.bucket? key = none := hb
      rw [heq, hb'] at hnone
      cases hnone
    rcases h.dropped key hserver hb with hnil | ⟨⟨d, hd, hkey⟩, hcomplete⟩
    · exact Or.inl hnil
    · refine Or.inr ⟨⟨d, hnew d hd, hkey⟩, ?_⟩
      rw [Complete, hrow, if_neg hne]
      exact hcomplete
  · have hg' := (flush?_putFlush g).symm.trans hg
    split at hg'
    next heq =>
      rw [← Option.some.inj hg']
      refine ⟨Or.inr (hclear.unremoved.resolve_left (List.ne_nil_of_mem hc)),
        fun d hd hserver x hx hkey => ?_, fun d _ _ hd => ?_⟩
      · have hd' : d ∈ fl.pending := hpending ▸ hd
        rcases hold x hx with hx | rfl
        · exact hclear.ahead d hd' hserver x hx hkey
        · rcases List.mem_cons.mp hd with rfl | hd
          · exact List.prefix_refl _
          · exact absurd hkey.symm (hkeyne d hd)
      · cases hd
        rw [hrow, if_pos rfl]
    next hne =>
      have hidle : Phase.outside gl.phase = true := by
        cases hout : gl.phase with
        | writing _ _ | cleaning _ _ _ _ =>
          have hother := hinv.gate g gl hg' (by rw [Flush.past, hout])
          exact absurd (Option.some.inj (hother.symm.trans hgate)) hne
        | _ => rfl
      exact clear_of_outside hidle
  · rcases hwritten with ⟨rfl, _⟩ | rfl
    · exact h.grows
    · refine List.pairwise_append.mpr ⟨h.grows, List.pairwise_singleton _ _, fun d hd x hx => ?_⟩
      rw [List.mem_singleton.mp hx]
      exact fun hkey hserver => (hclear.ahead c hc (hkey ▸ hserver) d hd hkey).subset

/-- A write that succeeds contains the earlier ones, and its row is what it has written. -/
theorem kept_write (hinv : Inv s) (h : Kept server s) (f : Nat) (err : Option FlushError)
    (stored : Bool) : Kept server (s.step (.write f err stored)) := by
  simp only [step]
  split
  next => exact h
  next fl hf =>
    split
    next c todo firstErr hp =>
      unfold Aggregator.write
      cases err with
      | none => exact kept_upsert hinv h hf hp none (Or.inr rfl)
      | some e =>
        dsimp only
        split
        next => exact kept_upsert hinv h hf hp (some e) (Or.inl ⟨rfl, Option.some_ne_none e⟩)
        next =>
          obtain ⟨hunremoved, hahead, _⟩ := h.clear f fl hf
          rw [Flush.pending, hp] at hunremoved hahead
          have hclear : Clear server s { fl with phase := .cleaning c (some e) todo firstErr } :=
            ⟨hunremoved, hahead, fun _ _ _ hd => by cases hd⟩
          exact h.put hclear s.gate s.nextFlush
    next => exact h

/-- A bucket is dropped when it is written as it stands, so its row has all of it. -/
theorem kept_clean (hinv : Inv s) (h : Kept server s) (f : Nat) :
    Kept server (s.step (.clean f)) := by
  simp only [step]
  split
  next => exact h
  next fl hf =>
    split
    next c err todo firstErr hp =>
      have hpending : fl.pending = c :: todo := by rw [Flush.pending, hp]
      obtain ⟨hunremoved, hahead, hstored⟩ := h.clear f fl hf
      unfold Aggregator.clean
      have hclear : Clear server s { fl with
          phase := .writing todo (firstErr.or (if s.same c then err else none))
          log := fl.log ++ [⟨c, err, decide (c.key.serverID ∈ fl.removed)⟩] } := by
        refine ⟨Or.inr (hunremoved.resolve_left ?_), fun d hd => ?_, fun _ _ _ hd => by cases hd⟩
        · rw [hpending]
          exact List.cons_ne_nil _ _
        · exact hahead d (hpending ▸ List.mem_cons_of_mem _ hd)
      have hput := @Kept.put F _ server s f h _ hclear s.gate s.nextFlush
      dsimp only
      split
      next hdrop =>
        simp only [Bool.and_eq_true, Option.isNone_iff_eq_none] at hdrop
        obtain ⟨⟨hsame, rfl⟩, hunchanged⟩ := hdrop
        have hc : c ∈ fl.pending := hpending ▸ List.mem_cons_self
        obtain ⟨b, hb, hsamples⟩ :=
          samples_of_unchanged hinv (hinv.tracked f fl hf c hc) hsame hunchanged
        refine ⟨fun key b' hserver hb' => ?_, fun key hserver hb' => ?_,
          fun g gl hg => (hput.clear g gl hg).congr rfl rfl, h.grows⟩
        · have hold := (bucket?_erase _ _).symm.trans hb'
          split at hold
          next => cases hold
          next => exact h.live key b' hserver hold
        · have hold := (bucket?_erase _ _).symm.trans hb'
          split at hold
          next heq =>
            refine Or.inr ⟨⟨c, hinv.wrote f fl c todo firstErr hf hp, heq.symm⟩, ?_⟩
            have hall := (h.live key b hserver (heq ▸ hb)).1
            have hpayload := hstored c todo firstErr hp
            rw [c.record_eq, ← hsamples, ← hall, ← heq] at hpayload
            exact hpayload
          next => exact h.dropped key hserver hold
      next => exact hput
    next => exact h

/-- Every step on time keeps the buckets and rows of the server. -/
theorem kept_step {a : Action F} (hok : OnTime server s a) (hinv : Inv s) (h : Kept server s) :
    Kept server (s.step a) := by
  cases a with
  | accept serverID report receivedAt => exact kept_accept h hok.2
  | removeServer serverID => exact kept_removeServer h hok
  | snapshot f => exact kept_snapshot h f
  | write f err stored => exact kept_write hinv h f err stored
  | clean f => exact kept_clean hinv h f
  | call _ | cancel _ | check _ | enter _ | abandon _ | leave _ => exact kept_quiet h rfl

end Step

end Aggregator

/-! ## A last flush -/

namespace Flush

/-- The flush has taken its candidates or has returned. -/
def started (fl : Flush F) : Bool :=
  match fl.phase with
  | .writing _ _ | .cleaning _ _ _ _ | .returned _ => true
  | _ => false

/-- The error so far. -/
def error (fl : Flush F) : Option FlushError :=
  match fl.phase with
  | .writing _ firstErr | .cleaning _ _ _ firstErr | .returned firstErr => firstErr
  | _ => none

end Flush

namespace Aggregator

/-- A report of the server is accepted. -/
def Action.accepts (server : Int) : Action F → Prop
  | .accept serverID _ _ => serverID = server
  | _ => False

/-- A flush on its way since its snapshot: its candidates hold all of their buckets, and as long as
it has met no error each live bucket of the server before the boundary is among them. -/
structure Settles (server : Int) (f : Nat) (boundary : Time) (s : Aggregator F) (fl : Flush F) :
    Prop where
  found : s.flush? f = some fl
  boundary_eq : fl.boundary = boundary
  started : fl.started = true
  whole : ∀ c ∈ fl.pending, c.key.serverID = server →
    ∃ b, s.bucket? c.key = some b ∧ b.samples = c.samples
  covers : fl.error = none → ∀ key b, key.serverID = server → key.before boundary = true →
    s.bucket? key = some b → ∃ c ∈ fl.pending, c.key = key

section Settle

variable {server : Int} {f : Nat} {boundary : Time} {s : Aggregator F} {fl : Flush F}

/-- A step that leaves the flush and the buckets of the server. -/
theorem Settles.frame {s' : Aggregator F} (h : Settles server f boundary s fl)
    (hflush : s'.flush? f = s.flush? f)
    (hbucket : ∀ key : Key, key.serverID = server → s'.bucket? key = s.bucket? key) :
    Settles server f boundary s' fl where
  found := hflush.trans h.found
  boundary_eq := h.boundary_eq
  started := h.started
  whole := fun c hc hserver => by
    rw [hbucket c.key hserver]
    exact h.whole c hc hserver
  covers := fun herror key b hserver hbefore hb =>
    h.covers herror key b hserver hbefore (hbucket key hserver ▸ hb)

/-- A step of another flush. -/
theorem Settles.put_ne (h : Settles server f boundary s fl) {g : Nat} (hne : f ≠ g) (gl : Flush F)
    (gate : Option Nat) (nextFlush : Nat) :
    Settles server f boundary { s.putFlush g gl with gate, nextFlush } fl :=
  h.frame ((flush?_putFlush f).trans (if_neg hne)) fun _ _ => rfl

/-- A step of the flush itself that keeps its candidates and its error. -/
theorem Settles.put (h : Settles server f boundary s fl) (fl' : Flush F)
    (hboundary : fl'.boundary = fl.boundary) (hstarted : fl'.started = true)
    (hpending : fl'.pending = fl.pending) (herror : fl'.error = fl.error) (gate : Option Nat) :
    Settles server f boundary { s.putFlush f fl' with gate } fl' where
  found := (flush?_putFlush f).trans (if_pos rfl)
  boundary_eq := hboundary.trans h.boundary_eq
  started := hstarted
  whole := hpending ▸ h.whole
  covers := fun herr => hpending ▸ h.covers (herror ▸ herr)

/-- The steps outside a loop leave what a flush has yet to do. -/
theorem settles_quiet (hinv : Inv s) (h : Settles server f boundary s fl) {a : Action F}
    (hquiet : a.quiet = true) : ∃ fl', Settles server f boundary (s.step a) fl' := by
  have hstarted := h.started
  cases a with
  | call _ =>
    exact ⟨fl, h.put_ne (Nat.ne_of_lt (hinv.numbered f fl h.found)) _ s.gate (s.nextFlush + 1)⟩
  | cancel g =>
    simp only [step]
    split
    next => exact ⟨fl, h⟩
    next gl hg =>
      by_cases heq : f = g
      · subst heq
        rw [h.found] at hg
        cases hg
        exact ⟨_, h.put { fl with cancelled := true } rfl hstarted rfl rfl s.gate⟩
      · exact ⟨fl, h.put_ne heq _ s.gate s.nextFlush⟩
  | check g =>
    simp only [step]
    split
    next => exact ⟨fl, h⟩
    next gl hg =>
      by_cases heq : f = g
      · subst heq
        rw [h.found] at hg
        cases hg
        unfold Flush.started at hstarted
        split
        next hp => rw [hp] at hstarted; cases hstarted
        next hp => rw [hp] at hstarted; cases hstarted
        next => exact ⟨fl, h⟩
      · split
        next => exact ⟨fl, h.put_ne heq _ s.gate s.nextFlush⟩
        next =>
          split
          next => exact ⟨fl, h.put_ne heq _ none s.nextFlush⟩
          next => exact ⟨fl, h.put_ne heq _ s.gate s.nextFlush⟩
        next => exact ⟨fl, h⟩
  | enter g | abandon g =>
    simp only [step]
    split
    next => exact ⟨fl, h⟩
    next gl hg =>
      split
      next hp _ =>
        by_cases heq : f = g
        · subst heq
          rw [h.found] at hg
          cases hg
          rw [Flush.started, hp] at hstarted
          cases hstarted
        · exact ⟨fl, h.put_ne heq _ _ s.nextFlush⟩
      next => exact ⟨fl, h⟩
  | leave g =>
    simp only [step]
    split
    next => exact ⟨fl, h⟩
    next gl hg =>
      split
      next firstErr hp =>
        by_cases heq : f = g
        · subst heq
          rw [h.found] at hg
          cases hg
          exact ⟨_, h.put { fl with phase := .returned firstErr } rfl rfl
            (by rw [Flush.pending, Flush.pending, hp]) (by rw [Flush.error, Flush.error, hp]) none⟩
        · exact ⟨fl, h.put_ne heq _ none s.nextFlush⟩
      next => exact ⟨fl, h⟩
  | accept _ _ _ | removeServer _ | snapshot _ | write _ _ _ | clean _ => cases hquiet

/-- A flush takes its candidates once, so a later snapshot is that of another flush. -/
theorem settles_snapshot (h : Settles server f boundary s fl) (g : Nat) :
    ∃ fl', Settles server f boundary (s.step (.snapshot g)) fl' := by
  have hstarted := h.started
  simp only [step]
  split
  next => exact ⟨fl, h⟩
  next gl hg =>
    split
    next hp =>
      by_cases heq : f = g
      · subst heq
        rw [h.found] at hg
        cases hg
        rw [Flush.started, hp] at hstarted
        cases hstarted
      · exact ⟨fl, h.put_ne heq _ s.gate s.nextFlush⟩
    next => exact ⟨fl, h⟩

/-- Removing another server leaves what the flush has yet to do. -/
theorem settles_removeServer (h : Settles server f boundary s fl) {serverID : Int}
    (hne : serverID ≠ server) : ∃ fl', Settles server f boundary (s.removeServer serverID) fl' := by
  have hbucket : ∀ key : Key, key.serverID = server →
      (s.removeServer serverID).bucket? key = s.bucket? key := fun key hserver => by
    rw [bucket?_removeServer, if_neg fun heq => hne (heq.symm.trans hserver)]
  refine ⟨{ fl with removed := serverID :: fl.removed },
    (flush?_removeServer serverID).trans (by rw [h.found]; rfl), h.boundary_eq, h.started,
    fun c hc hserver => ?_, fun herror key b hserver hbefore hb => ?_⟩
  · rw [hbucket c.key hserver]
    exact h.whole c hc hserver
  · exact h.covers herror key b hserver hbefore (hbucket key hserver ▸ hb)

/-- So does a report of another server. -/
theorem settles_accept (h : Settles server f boundary s fl) {x : Sample F}
    (hne : x.serverID ≠ server) : Settles server f boundary (s.accept x) fl :=
  h.frame rfl fun key hserver => by
    rw [bucket?_accept, if_neg]
    rintro rfl
    exact hne hserver

/-- A write is one thing less to do, or has failed, which the flush remembers. -/
theorem settles_write (h : Settles server f boundary s fl) (g : Nat) (err : Option FlushError)
    (stored : Bool) : ∃ fl', Settles server f boundary (s.step (.write g err stored)) fl' := by
  simp only [step]
  split
  next => exact ⟨fl, h⟩
  next gl hg =>
    split
    next c todo firstErr hp =>
      have hput : ∃ fl', Settles server f boundary
          (s.putFlush g { gl with phase := .cleaning c err todo firstErr }) fl' := by
        by_cases heq : f = g
        · subst heq
          rw [h.found] at hg
          cases hg
          exact ⟨_, h.put { fl with phase := .cleaning c err todo firstErr } rfl rfl
            (by rw [Flush.pending, Flush.pending, hp]) (by rw [Flush.error, Flush.error, hp]) s.gate⟩
        · exact ⟨fl, h.put_ne heq _ s.gate s.nextFlush⟩
      obtain ⟨fl', hfl'⟩ := hput
      refine ⟨fl', hfl'.frame ?_ fun key _ => ?_⟩
      · unfold Aggregator.write
        cases err with
        | none => rfl
        | some e => dsimp only; split <;> rfl
      · unfold Aggregator.write
        cases err with
        | none => rfl
        | some e => dsimp only; split <;> rfl
    next => exact ⟨fl, h⟩

/-- The buckets after a cleanup: at most that of the candidate has gone. -/
theorem bucket?_clean {g : Nat} {gl : Flush F} {c : Candidate F} {todo : List (Candidate F)}
    {firstErr err : Option FlushError} (key : Key) :
    (s.clean g gl c todo firstErr err).bucket? key =
      if (s.same c && err.isNone && s.unchanged c) = true ∧ key = c.key then none
      else s.bucket? key := by
  unfold Aggregator.clean
  dsimp only
  by_cases hdrop : (s.same c && err.isNone && s.unchanged c) = true
  · simp only [hdrop, if_true, true_and]
    exact bucket?_erase _ _
  · have hkeep : ¬ ((s.same c && err.isNone && s.unchanged c) = true ∧ key = c.key) := fun hc =>
      hdrop hc.1
    rw [if_neg hkeep]
    simp only [hdrop, Bool.false_eq_true, if_false]
    rfl

/-- Cleaning takes the flush to its next candidate. -/
theorem flush?_clean {g : Nat} {gl : Flush F} {c : Candidate F} {todo : List (Candidate F)}
    {firstErr err : Option FlushError} (i : Nat) :
    (s.clean g gl c todo firstErr err).flush? i =
      if i = g then
        some { gl with
          phase := .writing todo (firstErr.or (if s.same c then err else none))
          log := gl.log ++ [⟨c, err, decide (c.key.serverID ∈ gl.removed)⟩] }
      else s.flush? i := by
  unfold Aggregator.clean
  dsimp only
  by_cases hdrop : (s.same c && err.isNone && s.unchanged c) = true
  · rw [if_pos hdrop]
    exact flush?_putFlush i
  · rw [if_neg hdrop]
    exact flush?_putFlush i

/-- **The flush drops what it has written**: nothing was added to the bucket of its candidate. -/
theorem settles_clean (hinv : Inv s) (hkept : Kept server s) (h : Settles server f boundary s fl)
    (g : Nat) : ∃ fl', Settles server f boundary (s.step (.clean g)) fl' := by
  simp only [step]
  split
  next => exact ⟨fl, h⟩
  next gl hg =>
    split
    next c err todo firstErr hp =>
      have hgate : s.gate = some g := hinv.gate g gl hg (by rw [Flush.past, hp])
      by_cases heq : f = g
      · subst heq
        rw [h.found] at hg
        cases hg
        have hpending : fl.pending = c :: todo := by rw [Flush.pending, hp]
        have hlocal := hinv.phases f fl h.found
        unfold Flush.Local at hlocal
        rw [hp] at hlocal
        have hdropped : c.key.serverID = server →
            s.same c = true ∧ s.unchanged c = true := fun hserver => by
          obtain ⟨b, hb, hsamples⟩ := h.whole c (hpending ▸ List.mem_cons_self) hserver
          obtain ⟨b', hb', hid, _⟩ :=
            bucket_of_pending hinv hkept h.found (hpending ▸ List.mem_cons_self) hserver
          rw [hb] at hb'
          rw [same, unchanged, hb, Option.any_some, Option.any_some, Option.some.inj hb', hid,
            ← Option.some.inj hb', b.revision_eq, c.revision_eq, hsamples]
          exact ⟨beq_self_eq_true _, beq_self_eq_true _⟩
        refine ⟨_, (flush?_clean f).trans (if_pos rfl), h.boundary_eq, rfl, ?_, ?_⟩
        · intro d hd hserver
          rw [bucket?_clean, if_neg fun hc => hlocal.2.key_ne hd hc.2]
          exact h.whole d (hpending ▸ List.mem_cons_of_mem _ hd) hserver
        · intro herror key b hserver hbefore hb
          rw [bucket?_clean] at hb
          split at hb
          next => cases hb
          next hkeep =>
            obtain ⟨hfirst, hkept'⟩ := Option.or_eq_none_iff.mp herror
            obtain ⟨d, hd, hkey⟩ := h.covers (by rw [Flush.error, hp]; exact hfirst) key b hserver
              hbefore hb
            rw [hpending] at hd
            rcases List.mem_cons.mp hd with rfl | hd
            · obtain ⟨hsame, hunchanged⟩ := hdropped (hkey ▸ hserver)
              rw [hsame, if_pos rfl] at hkept'
              rw [hsame, hkept', hunchanged] at hkeep
              exact absurd ⟨rfl, hkey.symm⟩ hkeep
            · exact ⟨d, hd, hkey⟩
      · refine ⟨fl, (flush?_clean f).trans ((if_neg heq).trans h.found), h.boundary_eq, h.started,
          fun d hd => ?_, fun herror key b hserver hbefore hb => ?_⟩
        · have hother := hinv.gate f fl h.found (Flush.past_of_pending hd)
          exact absurd (Option.some.inj (hother.symm.trans hgate)) heq
        · rw [bucket?_clean] at hb
          split at hb
          next => cases hb
          next => exact h.covers herror key b hserver hbefore hb
    next => exact ⟨fl, h⟩

/-- While the server does not report, the flush comes closer to having written it. -/
theorem settles_step {a : Action F} (hok : OnTime server s a) (hno : ¬ a.accepts server)
    (hinv : Inv s) (hkept : Kept server s) (h : Settles server f boundary s fl) :
    ∃ fl', Settles server f boundary (s.step a) fl' := by
  cases a with
  | accept serverID report receivedAt => exact ⟨fl, settles_accept h hno⟩
  | removeServer serverID => exact settles_removeServer h hok
  | snapshot g => exact settles_snapshot h g
  | write g err stored => exact settles_write h g err stored
  | clean g => exact settles_clean hinv hkept h g
  | call _ | cancel _ | check _ | enter _ | abandon _ | leave _ => exact settles_quiet hinv h rfl

end Settle

/-- A flush that takes its candidates when the last report of the server has been accepted, and
returns nil, leaves the rows of the server's minutes before its boundary complete. -/
def LastFlush (server : Int) (as : List (Action F)) : Prop :=
  ∀ pre f post fl fl', as = pre ++ .snapshot f :: post →
    (run step initial pre).flush? f = some fl → fl.phase = .checked →
    (∀ a ∈ post, ¬ a.accepts server) →
    (run step initial as).flush? f = some fl' → fl'.phase = .returned none →
    ∀ key, key.serverID = server → key.before fl.boundary = true →
      (run step initial as).acceptedFor key ≠ [] → (run step initial as).Complete key

/-- A flush that takes its candidates has all buckets before its boundary to write. -/
theorem settles_of_snapshot {server : Int} {s : Aggregator F} {f : Nat} {fl : Flush F}
    (hf : s.flush? f = some fl) (hp : fl.phase = .checked) :
    ∃ fl', Settles server f fl.boundary (s.step (.snapshot f)) fl' := by
  refine ⟨{ fl with
    phase := .writing (s.candidates fl.boundary) none
    taken := some (s.candidates fl.boundary), removed := [] }, ?_⟩
  simp only [step, hf, hp]
  refine ⟨(flush?_putFlush f).trans (if_pos rfl), rfl, rfl, fun c hc _ => ?_,
    fun _ key b _ hbefore hb => ⟨b.candidate key, candidate_mem hb hbefore, rfl⟩⟩
  obtain ⟨b, hb, heq, _⟩ := mem_candidates hc
  exact ⟨b, hb, by rw [heq]; rfl⟩

/-- A run on time keeps the buckets and rows of the server. -/
theorem kept_run {server : Int} {s : Aggregator F} (hinv : Inv s) (hkept : Kept server s)
    {as : List (Action F)} (h : Guarded step (OnTime server) s as) :
    Inv (run step s as) ∧ Kept server (run step s as) :=
  h.invariant (fun s _ hok (hi : Inv s ∧ Kept server s) =>
    ⟨inv_step hok.inBounds hi.1, kept_step hok hi.1 hi.2⟩) ⟨hinv, hkept⟩

/-- In a run on time a last flush leaves the aggregate of all accepted reports. -/
theorem lastFlush_of_guarded {server : Int} {as : List (Action F)}
    (h : Guarded step (OnTime server) initial as) : LastFlush server as := by
  intro pre f post fl fl' has hf hp hno hf' hp' key hserver hbefore hne
  subst has
  obtain ⟨hpre, hok, hpost⟩ := guarded_append.mp h
  obtain ⟨hinv, hkept⟩ := kept_run inv_initial kept_initial hpre
  have hsettles : ∃ fl', Settles server f fl.boundary
      (run step initial (pre ++ .snapshot f :: post)) fl' := by
    rw [run_append, run_cons]
    have hall := (hpost.and_forall hno).invariant
      (fun s _ hok (hi : Inv s ∧ Kept server s ∧ ∃ fl', Settles server f fl.boundary s fl') =>
        ⟨inv_step hok.1.inBounds hi.1, kept_step hok.1 hi.1 hi.2.1,
          hi.2.2.elim fun _ hs => settles_step hok.1 hok.2 hi.1 hi.2.1 hs⟩)
      ⟨inv_step hok.inBounds hinv, kept_step hok hinv hkept, settles_of_snapshot hf hp⟩
    exact hall.2.2
  obtain ⟨gl, hgl⟩ := hsettles
  have hsame : gl = fl' := Option.some.inj (hgl.found.symm.trans hf')
  subst hsame
  obtain ⟨_, hkept'⟩ := kept_run inv_initial kept_initial h
  cases hb : (run step initial (pre ++ .snapshot f :: post)).bucket? key with
  | none =>
    rcases hkept'.dropped key hserver hb with hnil | ⟨_, hcomplete⟩
    · exact absurd hnil hne
    · exact hcomplete
  | some b =>
    obtain ⟨c, hc, _⟩ := hgl.covers (by rw [Flush.error, hp']) key b hserver hbefore hb
    rw [Flush.pending, hp'] at hc
    exact absurd hc List.not_mem_nil

/-- **The history of a minute only grows**: in a run in which no report comes for a minute that was
written and dropped, each successful write of a minute of the server contains the one before, and a
last flush leaves the aggregate of all that was accepted. -/
theorem grows_of_guarded (server : Int) (as : List (Action F))
    (h : Guarded step (OnTime server) initial as) :
    Grows server (run step initial as) ∧ LastFlush server as :=
  ⟨(kept_run inv_initial kept_initial h).2.grows, lastFlush_of_guarded h⟩

/-! ## A report in time and one too late -/

instance decidableOnTime (server : Int) (s : Aggregator F) : ∀ a, Decidable (OnTime server s a)
  | .accept serverID report receivedAt =>
    inferInstanceAs (Decidable (InBounds s (.accept serverID report receivedAt) ∧
      (serverID = server → s.bucket? (.of serverID receivedAt) = none →
        ∀ c ∈ s.written, c.key ≠ .of serverID receivedAt)))
  | .removeServer serverID => inferInstanceAs (Decidable (serverID ≠ server))
  | .call _ | .cancel _ | .check _ | .enter _ | .abandon _ | .snapshot _ | .write _ _ _ | .clean _
  | .leave _ => isTrue trivial

/-- A flush with one candidate, up to its write, and the rest of it. -/
def upToWrite (f : Nat) (boundary : Int) : List (Action Exact) :=
  [.call (.ofUnix boundary), .check f, .enter f, .check f, .snapshot f, .write f none false]

def afterWrite (f : Nat) : List (Action Exact) := [.clean f, .leave f]

/-- The second report of the minute comes while the first is being written. -/
def inTime : List (Action Exact) :=
  [sample] ++ upToWrite 0 60 ++ [sample] ++ afterWrite 0 ++ upToWrite 1 120 ++ afterWrite 1

/-- Two flushes of a minute, with a report between them. -/
theorem inTime_grows :
    (run step initial inTime).written.map (·.samples.map Sample.number) = [[0], [0, 1]] ∧
      Grows 1 (run step initial inTime) ∧ LastFlush 1 inTime :=
  ⟨by decide +kernel, grows_of_guarded 1 inTime (by decide +kernel)⟩

/-- The second report of the minute comes when the flush is through. -/
def late : List (Action Exact) :=
  [sample] ++ upToWrite 0 60 ++ afterWrite 0 ++ [sample] ++ upToWrite 1 120 ++ afterWrite 1

/-- The second write of the minute is of the late report alone. -/
theorem late_not_grows : ¬ Grows 1 (run step initial late) := by
  intro h
  have hpairs : ((run step initial late).written.map fun c =>
      (c.key, c.samples.map Sample.number)).Pairwise fun a b =>
        a.1 = b.1 → a.1.serverID = 1 → a.2 ⊆ b.2 :=
    List.pairwise_map.mpr (h.imp fun hsub hkey hserver =>
      List.map_subset _ (hsub hkey hserver))
  have hwritten : ((run step initial late).written.map fun c =>
      (c.key, c.samples.map Sample.number)) =
        [(⟨1, 0⟩, [0]), (⟨1, 0⟩, [1])] := by decide +kernel
  rw [hwritten] at hpairs
  exact absurd hpairs (by decide)

end Aggregator

end TinyProbe.History
