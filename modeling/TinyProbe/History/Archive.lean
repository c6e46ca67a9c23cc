import TinyProbe.History.Rows

/-!
# The minutes that are stored

What can happen to `metric_minutes` over the life of the server: reports go to their buckets,
flushes write buckets as rows, retention deletes the rows before its cutoff, and the rows of a
deleted server go with it. `expired` is a record of the keys retention has deleted, which no step
looks at.

Every key of a row is that of a bucket and so a multiple of sixty (`aligned_run`). Retention deletes
only what is before the cutoff of one of its clock readings (`expired_run`).
-/

namespace TinyProbe.History

open TinyProbe.Run Protocol

variable {F : Type} [Float64 F]

/-- The minute of an instant is a multiple of sixty, also before 1970. -/
theorem truncateMinute_unix_mod (t : Time) : t.truncateMinute.unix % 60 = 0 := by
  simp only [Time.unix, Time.truncateMinute, Time.minute]
  omega

namespace Aggregator

/-- Every key is a multiple of sixty: of a bucket, of a candidate and of a row. -/
structure Aligned (s : Aggregator F) : Prop where
  buckets : ∀ key b, s.bucket? key = some b → key.minuteUnix % 60 = 0
  pending : ∀ f fl, s.flush? f = some fl → ∀ c ∈ fl.pending, c.key.minuteUnix % 60 = 0
  rows : ∀ key payload, s.row? key = some payload → key.minuteUnix % 60 = 0

section Step

variable {s : Aggregator F} {f : Nat} {fl : Flush F}

/-- At first there are neither buckets nor rows to align. -/
theorem aligned_initial : Aligned (initial : Aggregator F) where
  buckets key b h := by cases h
  pending f fl h := by cases h
  rows key payload h := by cases h

/-- A step of one flush that leaves the buckets and the rows. -/
theorem Aligned.put (h : Aligned s) {fl' : Flush F}
    (hpending : ∀ c ∈ fl'.pending, c.key.minuteUnix % 60 = 0) (gate : Option Nat)
    (nextFlush : Nat) : Aligned { s.putFlush f fl' with gate, nextFlush } where
  buckets := h.buckets
  pending g gl hg := by
    have hg' := (flush?_putFlush g).symm.trans hg
    split at hg'
    next =>
      cases hg'
      exact hpending
    next => exact h.pending g gl hg'
  rows := h.rows

private theorem aligned_quiet (h : Aligned s) {a : Action F} (hquiet : a.quiet = true) :
    Aligned (s.step a) := by
  rcases step_quiet hquiet with heq | ⟨f, fl', gate, nextFlush, heq, hfl⟩
  · rwa [heq]
  · rw [heq]
    refine h.put ?_ gate nextFlush
    rcases hfl with hout | ⟨fl, hf, rfl⟩
    · intro c hc
      rw [pending_of_outside hout] at hc
      exact absurd hc List.not_mem_nil
    · exact h.pending f fl hf

/-- The key of a report is cut to its minute. -/
theorem aligned_accept (h : Aligned s) (serverID : Int) (report : AgentReport F)
    (receivedAt : Time) : Aligned (s.step (.accept serverID report receivedAt)) where
  buckets key b hb := by
    have hb' := (bucket?_step_accept s serverID report receivedAt key).symm.trans hb
    split at hb'
    next hkey =>
      rw [hkey]
      exact truncateMinute_unix_mod receivedAt
    next => exact h.buckets key b hb'
  pending := h.pending
  rows := h.rows

private theorem aligned_removeServer (h : Aligned s) (serverID : Int) :
    Aligned (s.removeServer serverID) where
  buckets key b hb := by
    have hb' := (bucket?_removeServer serverID key).symm.trans hb
    split at hb'
    next => cases hb'
    next => exact h.buckets key b hb'
  pending g gl hg := by
    obtain ⟨gl', hg', rfl⟩ :=
      Option.map_eq_some_iff.mp ((flush?_removeServer serverID).symm.trans hg)
    exact h.pending g gl' hg'
  rows := h.rows

/-- The candidates have the keys of their buckets. -/
theorem aligned_snapshot (h : Aligned s) (f : Nat) : Aligned (s.step (.snapshot f)) := by
  simp only [step]
  split
  next => exact h
  next fl hf =>
    split
    next =>
      refine @Aligned.put _ _ s f h _ ?_ s.gate s.nextFlush
      intro c hc
      obtain ⟨b, hb, _⟩ := mem_candidates hc
      exact h.buckets c.key b hb
    next => exact h

/-- A candidate is stored under its key. -/
theorem Aligned.upsert (h : Aligned s) {c : Candidate F} (hc : c.key.minuteUnix % 60 = 0)
    (written : List (Candidate F)) :
    Aligned { s.upsertMinute c.record with written } where
  buckets := h.buckets
  pending := h.pending
  rows key payload hrow := by
    have hrow' := (Map.lookup_insert s.rows key _ _).symm.trans hrow
    split at hrow'
    next hkey =>
      rw [hkey, c.key_record]
      exact hc
    next => exact h.rows key payload hrow'

/-- A row has the key of its candidate. -/
theorem aligned_write (h : Aligned s) (f : Nat) (err : Option FlushError) (stored : Bool) :
    Aligned (s.step (.write f err stored)) := by
  simp only [step]
  split
  next => exact h
  next fl hf =>
    split
    next c todo firstErr hp =>
      have hpending : ∀ d ∈ c :: todo, d.key.minuteUnix % 60 = 0 := by
        have := h.pending f fl hf
        rwa [Flush.pending, hp] at this
      have hput : Aligned (s.putFlush f { fl with phase := .cleaning c err todo firstErr }) :=
        @Aligned.put _ _ s f h { fl with phase := .cleaning c err todo firstErr } hpending s.gate
          s.nextFlush
      have hc := hpending c List.mem_cons_self
      unfold Aggregator.write
      cases err with
      | none => exact hput.upsert hc _
      | some e =>
        dsimp only
        split
        next => exact hput.upsert hc s.written
        next => exact hput
    next => exact h

private theorem aligned_clean (h : Aligned s) (f : Nat) : Aligned (s.step (.clean f)) := by
  have hbuckets := (step_flush (s := s) (a := .clean f) rfl).2.1
  have hrows := (step_flush (s := s) (a := .clean f) rfl).2.2 fun _ _ _ heq => by cases heq
  refine ⟨fun key b hb => h.buckets key b (hbuckets key b hb), ?_, ?_⟩
  · intro g gl hg
    simp only [step] at hg
    split at hg
    next => exact h.pending g gl hg
    next fl hf =>
      split at hg
      next c err todo firstErr hp =>
        have hg' := (flush?_clean g).symm.trans hg
        split at hg'
        next =>
          cases hg'
          have hpending := h.pending f fl hf
          rw [Flush.pending, hp] at hpending
          exact fun d hd => hpending d (List.mem_cons_of_mem _ hd)
        next => exact h.pending g gl hg'
      next => exact h.pending g gl hg
  · intro key payload hrow
    rw [row?, hrows] at hrow
    exact h.rows key payload hrow

theorem aligned_step (h : Aligned s) (a : Action F) : Aligned (s.step a) := by
  cases a with
  | accept serverID report receivedAt => exact aligned_accept h serverID report receivedAt
  | removeServer serverID => exact aligned_removeServer h serverID
  | snapshot f => exact aligned_snapshot h f
  | write f err stored => exact aligned_write h f err stored
  | clean f => exact aligned_clean h f
  | _ => exact aligned_quiet h rfl

end Step

end Aggregator

/-! ## Retention -/

/-- `historyRetention`. -/
def historyRetention : Duration := 30 * 24 * 3600 * Time.second

/-- The cutoff of `runRetention`. -/
def cutoffUnix (now : Time) : Int := (now.add (-historyRetention)).truncateMinute.unix

/-- The aggregator with its rows, and the keys that retention has deleted. -/
structure Archive (F : Type) [Float64 F] where
  aggregator : Aggregator F
  expired : List Key

namespace Archive

/-- What happens to the archive. `retention` is given whether its statement took effect. -/
inductive Action (F : Type) where
  | aggregator (a : Aggregator.Action F)
  /-- `Jobs.flush` calls `FlushBefore`. -/
  | flush (now : Time)
  /-- `Jobs.runRetention`. -/
  | retention (now : Time) (done : Bool)
  /-- The rows of a deleted server, by `ON DELETE CASCADE`. -/
  | deleteServer (serverID : Int)

def initial : Archive F := { aggregator := .initial, expired := [] }

def row? (s : Archive F) (key : Key) : Option (MinutePayload F) := s.aggregator.row? key

/-- `DeleteBefore`. -/
def deleteBefore (s : Archive F) (cutoff : Int) : Archive F :=
  { aggregator := { s.aggregator with
      rows := s.aggregator.rows.filterKeys fun key => !decide (key.minuteUnix < cutoff) }
    expired := s.expired ++
      s.aggregator.rows.keys.filter fun key => decide (key.minuteUnix < cutoff) }

def step (s : Archive F) : Action F → Archive F
  | .aggregator a => { s with aggregator := s.aggregator.step a }
  | .flush now => { s with aggregator := s.aggregator.step (.call now.truncateMinute) }
  | .retention now done => if done then s.deleteBefore (cutoffUnix now) else s
  | .deleteServer serverID =>
    { s with aggregator := { s.aggregator with
        rows := s.aggregator.rows.filterKeys fun key => key.serverID != serverID } }

/-- Fewer rows are as aligned. -/
theorem aligned_filterKeys {s : Aggregator F} (h : s.Aligned) (p : Key → Bool) :
    Aggregator.Aligned { s with rows := s.rows.filterKeys p } where
  buckets := h.buckets
  pending := h.pending
  rows key payload hrow := by
    have hrow' := (Map.lookup_filterKeys p s.rows key).symm.trans hrow
    split at hrow'
    next => exact h.rows key payload hrow'
    next => cases hrow'

theorem aligned_step (s : Archive F) (a : Action F) (h : s.aggregator.Aligned) :
    (s.step a).aggregator.Aligned := by
  cases a with
  | aggregator a => exact Aggregator.aligned_step h a
  | flush now => exact Aggregator.aligned_step h (.call now.truncateMinute)
  | retention now done =>
    cases done with
    | true => exact aligned_filterKeys h _
    | false => exact h
  | deleteServer serverID => exact aligned_filterKeys h _

/-- **Every minute that is stored is a multiple of sixty.** -/
theorem aligned_run (as : List (Action F)) :
    (run step (initial : Archive F) as).aggregator.Aligned :=
  @run_invariant _ _ _ (fun s : Archive F => s.aggregator.Aligned) aligned_step _
    Aggregator.aligned_initial as

/-- The clock readings of retention are not later than `now`. -/
def Action.notAfter (now : Time) : Action F → Prop
  | .retention now' _ => now'.ns ≤ now.ns
  | _ => True

/-- The cutoff only moves on. -/
theorem cutoffUnix_mono {now now' : Time} (h : now.ns ≤ now'.ns) :
    cutoffUnix now ≤ cutoffUnix now' := by
  simp only [cutoffUnix, Time.add, Time.truncateMinute, Time.unix, Time.minute]
  omega

/-- **Retention deletes only what is before the cutoff of one of its clock readings.** -/
theorem expired_run {now : Time} {s : Archive F} (hs : ∀ key ∈ s.expired,
      key.minuteUnix < cutoffUnix now) {as : List (Action F)} (has : ∀ a ∈ as, a.notAfter now) :
    ∀ key ∈ (run step s as).expired, key.minuteUnix < cutoffUnix now := by
  induction as generalizing s with
  | nil => exact hs
  | cons a as ih =>
    refine ih ?_ fun b hb => has b (List.mem_cons_of_mem _ hb)
    cases a with
    | retention now' done =>
      have hnow := cutoffUnix_mono (has _ List.mem_cons_self)
      cases done with
      | true =>
        intro key hkey
        rcases List.mem_append.mp hkey with hold | hnew
        · exact hs key hold
        · have hlt := of_decide_eq_true (List.mem_filter.mp hnew).2
          omega
      | false => exact hs
    | _ => exact hs

end Archive

end TinyProbe.History
