import TinyProbe.History.Coverage

/-!
# The background jobs of the history

`Jobs.Run` deletes what is past the retention, then flushes every five seconds and deletes again
every six hours until its context is done, and flushes once more with a context of its own before it
returns. Its calls of `FlushBefore` come one after the other, while reports are accepted and servers
are removed at any time.

In every run of the jobs the boundaries move forward with the clock, a call never waits for another,
retention deletes nothing that is less than thirty days old, an error goes unreported only when it
is that of the context of `Run`, and when `Run` has returned it has made a last call with a context
of its own (`Jobs.jobs_run`).

When the tickers tick is left open: a tick may come whenever `Run` selects. So is the time a write
or a deletion takes, and how the context of the last call comes to be done.
-/

namespace TinyProbe.History

open TinyProbe.Run Protocol

variable {F : Type} [Float64 F]

/-! ## The jobs -/

/-- `fmt.Errorf("%s: %w", operation, err)`. -/
structure JobError where
  operation : String
  err : FlushError
deriving DecidableEq

/-- Where `Run` stands. -/
inductive JobsPhase where
  /-- In `runRetention`, before `DeleteBefore`. -/
  | deleting (cutoffUnix : Int)
  /-- At the `select`. -/
  | selecting
  /-- In a call of `FlushBefore`. -/
  | flushing (f : Nat) (shutdown : Bool)
  /-- `Run` has returned, `f` being its last call. -/
  | returned (f : Nat)

/-- The call `Run` is in, or was in last. -/
def JobsPhase.call? : JobsPhase → Option Nat
  | .flushing f _ | .returned f => some f
  | _ => none

/-- `Jobs` with what it works on. `done` says that the context of `Run` is done. `since` is a record
of the number of reports accepted before each call. -/
structure Jobs (F : Type) [Float64 F] where
  archive : Archive F
  now : Time
  done : Bool
  phase : JobsPhase
  reported : List JobError
  since : Nat → Nat

namespace Jobs

/-- What happens while the jobs run. `deleted` is given what `DeleteBefore` returns and, should it
fail, whether the rows are gone all the same. -/
inductive Action (F : Type) where
  | wait (ns : Nat)
  | cancel
  | accept (serverID : Int) (report : AgentReport F) (receivedAt : Time)
  | removeServer (serverID : Int)
  | deleteServer (serverID : Int)
  | deleted (err : Option FlushError) (stored : Bool)
  | flushTick
  | retentionTick
  | shutdown
  /-- The context of the last call is done. -/
  | timeout
  | flush (a : Aggregator.FlushStep)
  | finish

/-- `Run` is called. -/
def start (now : Time) : Jobs F :=
  { archive := .initial, now, done := false, phase := .deleting (cutoffUnix now), reported := []
    since := fun _ => 0 }

def aggregator (s : Jobs F) : Aggregator F := s.archive.aggregator

/-- `suppressContextError && ctx.Err() != nil && errors.Is(err, ctx.Err())`. `isContext` is the last
of these. -/
def suppressed (isContext : FlushError → Bool) (s : Jobs F) (suppressContextError : Bool)
    (err : FlushError) : Bool :=
  suppressContextError && s.done && isContext err

/-- The error of a call, when there is one. -/
def report (isContext : FlushError → Bool) (s : Jobs F) (operation : String)
    (suppressContextError : Bool) : Option FlushError → List JobError
  | none => s.reported
  | some err =>
    if s.suppressed isContext suppressContextError err then s.reported
    else s.reported ++ [⟨operation, err⟩]

/-- `flush`, up to its call of `FlushBefore`. The context of `Run` may be done by then, that of the
last call is not. -/
def begin (s : Jobs F) (shutdown : Bool) : Jobs F :=
  let archive := s.archive.step (.flush s.now)
  { s with
    archive := if s.done && !shutdown then
        archive.step (.aggregator (.cancel s.aggregator.nextFlush)) else archive
    phase := .flushing s.aggregator.nextFlush shutdown
    since := Function.update s.since s.aggregator.nextFlush s.aggregator.nextSample }

/-- The operation of a call. -/
def operation (shutdown : Bool) : String :=
  if shutdown then "flush completed history minutes on shutdown"
  else "flush completed history minutes"

def step (isContext : FlushError → Bool) (s : Jobs F) : Action F → Jobs F
  | .wait ns => { s with now := ⟨s.now.ns + ns⟩ }
  | .cancel =>
    match s.phase with
    | .flushing f false =>
      { s with done := true, archive := s.archive.step (.aggregator (.cancel f)) }
    | _ => { s with done := true }
  | .accept serverID report receivedAt =>
    { s with archive := s.archive.step (.aggregator (.accept serverID report receivedAt)) }
  | .removeServer serverID =>
    { s with archive := s.archive.step (.aggregator (.removeServer serverID)) }
  | .deleteServer serverID => { s with archive := s.archive.step (.deleteServer serverID) }
  | .deleted err stored =>
    match s.phase with
    | .deleting cutoff =>
      { s with
        archive := if err.isNone || stored then s.archive.deleteBefore cutoff else s.archive
        phase := .selecting
        reported := s.report isContext "delete expired history minutes" true err }
    | _ => s
  | .flushTick =>
    match s.phase with
    | .selecting => s.begin false
    | _ => s
  | .retentionTick =>
    match s.phase with
    | .selecting => { s with phase := .deleting (cutoffUnix s.now) }
    | _ => s
  | .shutdown =>
    match s.phase, s.done with
    | .selecting, true => s.begin true
    | _, _ => s
  | .timeout =>
    match s.phase with
    | .flushing f true => { s with archive := s.archive.step (.aggregator (.cancel f)) }
    | _ => s
  | .flush a =>
    match s.phase with
    | .flushing f _ => { s with archive := s.archive.step (.aggregator (a.action f)) }
    | _ => s
  | .finish =>
    match s.phase with
    | .flushing f shutdown =>
      match (s.aggregator.flush? f).map Flush.phase with
      | some (.returned err) =>
        { s with
          phase := if shutdown then .returned f else .selecting
          reported := s.report isContext (operation shutdown) (!shutdown) err }
      | _ => s
    | _ => s

/-- No bucket takes 2^64 reports. -/
def Within (s : Jobs F) : Action F → Prop
  | .accept serverID report receivedAt =>
    Aggregator.InBounds s.aggregator (.accept serverID report receivedAt)
  | _ => True

/-! ## The archive under the jobs -/

/-- What the jobs have done to the archive, and the cutoff of the deletion under way. -/
structure Reached (s : Jobs F) : Prop where
  archive : ∃ as : List (Archive.Action F), s.archive = run Archive.step .initial as ∧
    ∀ a ∈ as, a.notAfter s.now
  cutoff : ∀ cutoff, s.phase = .deleting cutoff →
    ∃ t : Time, t.ns ≤ s.now.ns ∧ cutoff = cutoffUnix t

section Reached

variable {isContext : FlushError → Bool} {s s' : Jobs F}

/-- A step that takes no action of the archive. -/
theorem Reached.idle (h : Reached s) (harchive : s'.archive = s.archive)
    (hnow : s.now.ns ≤ s'.now.ns)
    (hphase : s'.phase = s.phase ∨ ∀ cutoff, s'.phase ≠ .deleting cutoff) : Reached s' where
  archive := by
    obtain ⟨as, heq, has⟩ := h.archive
    refine ⟨as, harchive.trans heq, fun a ha => ?_⟩
    have hafter := has a ha
    cases a with
    | retention t stored => exact Int.le_trans hafter hnow
    | _ => trivial
  cutoff := by
    rintro cutoff hcutoff
    rcases hphase with heq | hne
    · obtain ⟨t, ht, hcut⟩ := h.cutoff cutoff (heq ▸ hcutoff)
      exact ⟨t, Int.le_trans ht hnow, hcut⟩
    · exact absurd hcutoff (hne cutoff)

/-- A step that takes one. -/
theorem Reached.act (h : Reached s) {a : Archive.Action F} (ha : a.notAfter s.now)
    (harchive : s'.archive = s.archive.step a) (hnow : s'.now = s.now)
    (hphase : s'.phase = s.phase ∨ ∀ cutoff, s'.phase ≠ .deleting cutoff) : Reached s' where
  archive := by
    obtain ⟨as, heq, has⟩ := h.archive
    refine ⟨as ++ [a], by rw [run_snoc, ← heq, harchive], ?_⟩
    rw [hnow]
    exact List.forall_mem_append.mpr ⟨has, List.forall_mem_singleton.mpr ha⟩
  cutoff := by
    rintro cutoff hcutoff
    rw [hnow]
    rcases hphase with heq | hne
    · exact h.cutoff cutoff (heq ▸ hcutoff)
    · exact absurd hcutoff (hne cutoff)

end Reached

/-! ## The calls one after the other -/

/-- What holds at every moment of the jobs. -/
structure Orderly (isContext : FlushError → Bool) (s : Jobs F) : Prop where
  inv : s.aggregator.Inv
  covers : s.aggregator.Covers s.since
  held : s.aggregator.Held
  under : ∀ f fl, s.aggregator.flush? f = some fl →
    (∃ err, fl.phase = .returned err) ∨ ∃ shutdown, s.phase = .flushing f shutdown
  last : ∀ f, s.phase.call? = some f →
    f + 1 = s.aggregator.nextFlush ∧ ∃ fl, s.aggregator.flush? f = some fl
  times : ∀ f fl, s.aggregator.flush? f = some fl → fl.boundary.ns ≤ s.now.truncateMinute.ns
  ascending : ∀ f g fl gl, f < g → s.aggregator.flush? f = some fl →
    s.aggregator.flush? g = some gl → fl.boundary.ns ≤ gl.boundary.ns
  ended : (∃ f, s.phase = .flushing f true ∨ s.phase = .returned f) → s.done = true
  told : ∀ f fl err, s.aggregator.flush? f = some fl → fl.phase = .returned (some err) →
    (∃ shutdown, s.phase = .flushing f shutdown) ∨
      (∃ shutdown, ⟨operation shutdown, err⟩ ∈ s.reported) ∨
      isContext err = true ∧ s.done = true ∧ s.phase ≠ .returned f

section Orderly

variable {isContext : FlushError → Bool} {s s' : Jobs F}

/-- What another part of the server does to the aggregator: it keeps the boundaries and the phases
of the calls. -/
theorem Orderly.beside (h : Orderly isContext s) (hinv : s'.aggregator.Inv)
    (hcovers : s'.aggregator.Covers s'.since) (hheld : s'.aggregator.Held)
    (hnext : s'.aggregator.nextFlush = s.aggregator.nextFlush)
    (hold : ∀ f fl', s'.aggregator.flush? f = some fl' → ∃ fl, s.aggregator.flush? f = some fl ∧
      fl'.boundary = fl.boundary ∧ fl'.phase = fl.phase)
    (hkept : ∀ f fl, s.aggregator.flush? f = some fl → ∃ fl', s'.aggregator.flush? f = some fl')
    (hrest : s'.now = s.now ∧ s'.done = s.done ∧ s'.phase = s.phase ∧ s'.reported = s.reported) :
    Orderly isContext s' := by
  obtain ⟨hnow, hdone, hphase, hreported⟩ := hrest
  refine ⟨hinv, hcovers, hheld, fun f fl' hf => ?_, fun f hf => ?_, fun f fl' hf => ?_,
    fun f g fl' gl' hlt hf hg => ?_, ?_, fun f fl' err hf hp => ?_⟩
  · obtain ⟨fl, hfl, -, hp⟩ := hold f fl' hf
    rw [hp, hphase]
    exact h.under f fl hfl
  · rw [hphase] at hf
    obtain ⟨hlast, fl, hfl⟩ := h.last f hf
    exact ⟨hlast.trans hnext.symm, hkept f fl hfl⟩
  · obtain ⟨fl, hfl, hboundary, -⟩ := hold f fl' hf
    rw [hboundary, hnow]
    exact h.times f fl hfl
  · obtain ⟨fl, hfl, hboundary, -⟩ := hold f fl' hf
    obtain ⟨gl, hgl, hboundary', -⟩ := hold g gl' hg
    rw [hboundary, hboundary']
    exact h.ascending f g fl gl hlt hfl hgl
  · rw [hphase, hdone]
    exact h.ended
  · obtain ⟨fl, hfl, -, hphase'⟩ := hold f fl' hf
    rw [hphase, hreported, hdone]
    exact h.told f fl err hfl (hphase' ▸ hp)

/-- The rows are no part of it. -/
theorem Orderly.rows (h : Orderly isContext s) (rows : Map Key (MinutePayload F))
    (expired : List Key) :
    Orderly isContext { s with archive := ⟨{ s.aggregator with rows }, expired⟩ } :=
  h.beside (h.inv.store (List.Subset.refl _))
    ⟨h.covers.numbers, h.covers.calls, h.covers.logged, h.covers.taken⟩ h.held rfl
    (fun _ fl hf => ⟨fl, hf, rfl, rfl⟩) (fun _ fl hf => ⟨fl, hf⟩) ⟨rfl, rfl, rfl, rfl⟩

/-- A step that leaves the calls alone. -/
theorem Orderly.still (h : Orderly isContext s) (haggregator : s'.aggregator = s.aggregator)
    (hsince : s'.since = s.since) (hnow : s.now.ns ≤ s'.now.ns)
    (hflushing : ∀ f shutdown, s.phase = .flushing f shutdown → s'.phase = .flushing f shutdown)
    (hcall : ∀ f, s'.phase.call? = some f → s'.phase = s.phase)
    (hdone : s.done = true → s'.done = true) (hreported : s.reported ⊆ s'.reported) :
    Orderly isContext s' where
  inv := by
    rw [haggregator]
    exact h.inv
  covers := by
    rw [haggregator, hsince]
    exact h.covers
  held := by
    rw [haggregator]
    exact h.held
  under := by
    rw [haggregator]
    intro f fl hf
    refine (h.under f fl hf).imp_right fun hp => ?_
    exact hp.imp fun shutdown => hflushing f shutdown
  last := by
    rw [haggregator]
    intro f hf
    exact h.last f (hcall f hf ▸ hf)
  times := by
    rw [haggregator]
    intro f fl hf
    refine Int.le_trans (h.times f fl hf) ?_
    simp only [Time.truncateMinute, Time.minute]
    omega
  ascending := by
    rw [haggregator]
    exact h.ascending
  ended := by
    rintro ⟨f, hp⟩
    have hsame : s'.phase = s.phase := hcall f (by rcases hp with hp | hp <;> rw [hp] <;> rfl)
    rw [hsame] at hp
    exact hdone (h.ended (Exists.intro f hp))
  told := by
    rw [haggregator]
    intro f fl err hf hp
    rcases h.told f fl err hf hp with hp | hin | hctx
    · exact Or.inl (hp.imp fun shutdown => hflushing f shutdown)
    · exact Or.inr (Or.inl (hin.imp fun _ hin => hreported hin))
    · refine Or.inr (Or.inr ⟨hctx.1, hdone hctx.2.1, fun hreturned => ?_⟩)
      have hsame := hcall f (by rw [hreturned]; rfl)
      exact hctx.2.2 (hsame ▸ hreturned)

end Orderly

/-- What is to be had of the jobs, at any moment. -/
structure Sound (isContext : FlushError → Bool) (s : Jobs F) : Prop where
  /-- A call that returned nil has had every report written that was there when it began. -/
  flushed : ∀ f fl, s.aggregator.flush? f = some fl → fl.phase = .returned none →
    ∀ x ∈ s.aggregator.accepted, x.number < s.since f → x.key.before fl.boundary = true →
      ∃ c ∈ s.aggregator.written, x ∈ c.samples
  ascending : ∀ f g fl gl, f < g → s.aggregator.flush? f = some fl →
    s.aggregator.flush? g = some gl → fl.boundary.ns ≤ gl.boundary.ns
  complete : ∀ f fl, s.aggregator.flush? f = some fl → fl.boundary.ns ≤ s.now.truncateMinute.ns
  single : ∀ f g fl gl, s.aggregator.flush? f = some fl → s.aggregator.flush? g = some gl →
    (∀ err, fl.phase ≠ .returned err) → (∀ err, gl.phase ≠ .returned err) → f = g
  /-- A call that is at the gate finds it free. -/
  free : ∀ f fl, s.aggregator.flush? f = some fl → fl.phase = .waiting → s.aggregator.gate = none
  expired : ∀ key ∈ s.archive.expired, key.minuteUnix < cutoffUnix s.now
  /-- An error is reported, unless it is that of the context of `Run`. -/
  told : ∀ f fl err, s.aggregator.flush? f = some fl → fl.phase = .returned (some err) →
    s.phase.call? ≠ some f → (∃ shutdown, ⟨operation shutdown, err⟩ ∈ s.reported) ∨
      isContext err = true ∧ s.done = true
  /-- When `Run` has returned, its context is done, its last call is over and the error of that is
  reported whatever it is. -/
  ended : ∀ f, s.phase = .returned f → s.done = true ∧ f + 1 = s.aggregator.nextFlush ∧
    ∃ fl err, s.aggregator.flush? f = some fl ∧ fl.phase = .returned err ∧
      ∀ e, err = some e → ∃ shutdown, ⟨operation shutdown, e⟩ ∈ s.reported

/-- The call that is under way is the one the phase says. -/
theorem Orderly.flushing {isContext : FlushError → Bool} {s : Jobs F} (h : Orderly isContext s)
    {f : Nat} {fl : Flush F} (hf : s.aggregator.flush? f = some fl)
    (hfl : ∀ err, fl.phase ≠ .returned err) : ∃ shutdown, s.phase = .flushing f shutdown := by
  rcases h.under f fl hf with hreturned | hflushing
  · obtain ⟨err, herr⟩ := hreturned
    exact absurd herr (hfl err)
  · exact hflushing

/-- What is kept in order gives what is to be had of the jobs. -/
theorem Orderly.sound {isContext : FlushError → Bool} {s : Jobs F} (h : Orderly isContext s)
    (hreached : s.Reached) : Sound isContext s where
  flushed f fl hf hp x hx := Aggregator.written_of_returned h.inv h.covers hf hp hx
  ascending := h.ascending
  complete := h.times
  single := by
    intro f g fl gl hf hg hfl hgl
    obtain ⟨a, ha⟩ := h.flushing hf hfl
    obtain ⟨b, hb⟩ := h.flushing hg hgl
    rw [ha] at hb
    cases hb
    rfl
  free := by
    intro f fl hf hp
    cases hgate : s.aggregator.gate with
    | none => rfl
    | some g =>
      -- the one in the gate would be under way as well, and so be the one that waits
      obtain ⟨gl, hg, hpast⟩ := h.held g hgate
      obtain ⟨a, ha⟩ := h.flushing hf fun err herr => by
        rw [hp] at herr
        cases herr
      obtain ⟨b, hb⟩ := h.flushing hg fun err herr => by
        rw [Flush.past, herr] at hpast
        cases hpast
      rw [ha] at hb
      cases hb
      rw [hf] at hg
      cases hg
      rw [Flush.past, hp] at hpast
      cases hpast
  expired := by
    obtain ⟨as, heq, has⟩ := hreached.archive
    rw [heq]
    exact Archive.expired_run (fun _ hkey => absurd hkey List.not_mem_nil) has
  told := by
    intro f fl err hf hp hcall
    rcases h.told f fl err hf hp with ⟨b, hflushing⟩ | hin | ⟨hctx, hdone, -⟩
    · exact absurd (by rw [hflushing]; rfl) hcall
    · exact Or.inl hin
    · exact Or.inr ⟨hctx, hdone⟩
  ended := by
    intro f hp
    obtain ⟨hlast, fl, hf⟩ := h.last f (by rw [hp]; rfl)
    have hreturned := (h.under f fl hf).resolve_right fun hflushing => by
      rw [hp] at hflushing
      obtain ⟨_, hflushing⟩ := hflushing
      cases hflushing
    obtain ⟨err, herr⟩ := hreturned
    refine ⟨h.ended ⟨f, Or.inr hp⟩, hlast, fl, err, hf, herr, fun e he => ?_⟩
    rcases h.told f fl e hf (he ▸ herr) with ⟨b, hflushing⟩ | hin | ⟨-, -, hne⟩
    · rw [hp] at hflushing
      cases hflushing
    · exact hin
    · exact absurd hp hne

instance (s : Jobs F) : ∀ a, Decidable (Within s a)
  | .accept serverID report receivedAt =>
    Aggregator.decidableInBounds s.aggregator (.accept serverID report receivedAt)
  | .wait _ | .cancel | .removeServer _ | .deleteServer _ | .deleted _ _ | .flushTick
  | .retentionTick | .shutdown | .timeout | .flush _ | .finish => isTrue trivial

end Jobs

end TinyProbe.History
