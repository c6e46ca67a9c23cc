import TinyProbe.History.Accumulator
import TinyProbe.Lib.Run

/-!
# The aggregator and its flushes

`Aggregator` keeps a bucket for each server and minute. `Accept` adds a report to its bucket, and a
`FlushBefore` writes the buckets of the minutes before its boundary and drops each one that it has
written and that nothing was added to in the meantime. Writing happens outside the lock, so a flush
is the steps between which others can come: the check of its context, the gate, the second check,
the snapshot of its candidates, and for each candidate `UpsertMinute` and the cleanup under the
lock. Any number of calls can be under way.

Buckets are pointers in the source: the cleanup compares the bucket in the map with the one it has
written. In the model a bucket has a number that no other bucket has.

`samples`, `accepted` and `written`, and of a flush `passed`, `taken`, `removed` and `log`, are
records of the run that no step looks at. A sample is one accepted report with a number of its own,
so that two equal reports are two samples. What a bucket and a candidate hold is what their samples
add up to, by a field of each.
-/

namespace TinyProbe.History

open Protocol

variable {F : Type}

/-- `bucketKey`. -/
structure Key where
  serverID : Int
  minuteUnix : Int
deriving DecidableEq

namespace Key

/-- The key of the bucket a report goes to. -/
def of (serverID : Int) (receivedAt : Time) : Key := ⟨serverID, receivedAt.truncateMinute.unix⟩

/-- The order of the candidates: by server and, within a server, by minute. -/
def LE (a b : Key) : Prop :=
  a.serverID < b.serverID ∨ a.serverID = b.serverID ∧ a.minuteUnix ≤ b.minuteUnix

/-- The strict order, `less` of the source. -/
def LT (a b : Key) : Prop :=
  a.serverID < b.serverID ∨ a.serverID = b.serverID ∧ a.minuteUnix < b.minuteUnix

instance : DecidableRel LE := fun a b =>
  inferInstanceAs (Decidable (a.serverID < b.serverID ∨ _ ∧ _))

instance : Std.Total LE := ⟨fun a b => by unfold LE; omega⟩

instance : IsTrans Key LE := ⟨fun a b c => by unfold LE; omega⟩

theorem lt_of_le_of_ne {a b : Key} (h : a.LE b) (hne : a ≠ b) : a.LT b := by
  obtain ⟨sa, ma⟩ := a
  obtain ⟨sb, mb⟩ := b
  simp only [LE, LT, ne_eq, mk.injEq] at h hne ⊢
  omega

theorem lt_irrefl (a : Key) : ¬ a.LT a := by
  unfold LT
  omega

/-- `time.Unix(key.MinuteUnix, 0).Before(minute)`. -/
def before (key : Key) (minute : Time) : Bool := (Time.ofUnix key.minuteUnix).before minute

end Key

/-- An accepted report. -/
structure Sample (F : Type) where
  number : Nat
  serverID : Int
  report : AgentReport F
  receivedAt : Time

def Sample.key (x : Sample F) : Key := .of x.serverID x.receivedAt

section Aggregate

variable [Float64 F]

/-- What samples add up to. -/
def aggregate (samples : List (Sample F)) : Accumulator F :=
  samples.foldl (fun a x => a.addAt x.report x.receivedAt) .zero

/-- A report is added to what was aggregated before it. -/
theorem aggregate_snoc (samples : List (Sample F)) (x : Sample F) :
    aggregate (samples ++ [x]) = (aggregate samples).addAt x.report x.receivedAt :=
  List.foldl_append

end Aggregate

/-- `bucket`. -/
structure Bucket (F : Type) [Float64 F] where
  id : Nat
  accumulator : Accumulator F
  revision : UInt64
  samples : List (Sample F)
  accumulator_eq : accumulator = aggregate samples
  revision_eq : revision = UInt64.ofNat samples.length

/-- `candidate`. -/
structure Candidate (F : Type) [Float64 F] where
  key : Key
  bucket : Nat
  revision : UInt64
  record : MinuteRecord F
  samples : List (Sample F)
  record_eq : record = (aggregate samples).finish key.serverID key.minuteUnix
  revision_eq : revision = UInt64.ofNat samples.length

/-- The error of a done context, and those of the writer. -/
inductive FlushError where
  | context
  | write (message : String)
deriving DecidableEq

/-- One candidate a flush is through with: what `UpsertMinute` returned, and whether its server was
removed between the snapshot and the cleanup. -/
structure Attempt (F : Type) [Float64 F] where
  candidate : Candidate F
  err : Option FlushError
  removed : Bool

/-- Where a call of `FlushBefore` stands. -/
inductive Phase (F : Type) [Float64 F] where
  /-- Before the first check of the context. -/
  | called
  /-- At the `select`. -/
  | waiting
  /-- In the gate, before the second check. -/
  | entered
  /-- Before the snapshot. -/
  | checked
  /-- Before the `UpsertMinute` of the next candidate. -/
  | writing (todo : List (Candidate F)) (firstErr : Option FlushError)
  /-- After it, before the cleanup. -/
  | cleaning (candidate : Candidate F) (err : Option FlushError) (todo : List (Candidate F))
      (firstErr : Option FlushError)
  | returned (err : Option FlushError)

/-- One call of `FlushBefore`. -/
structure Flush (F : Type) [Float64 F] where
  boundary : Time
  cancelled : Bool
  phase : Phase F
  /-- The call has got the gate. -/
  passed : Bool
  /-- The candidates of the snapshot. -/
  taken : Option (List (Candidate F))
  /-- The servers removed since the snapshot. -/
  removed : List Int
  log : List (Attempt F)

/-- `Aggregator`, with the calls under way and the rows its writer has stored. `gate` is the call
whose token is in `flushGate`. -/
structure Aggregator (F : Type) [Float64 F] where
  buckets : Map Key (Bucket F)
  nextBucket : Nat
  gate : Option Nat
  flushes : Map Nat (Flush F)
  nextFlush : Nat
  rows : Map Key (MinutePayload F)
  /-- The reports accepted for servers not removed since. -/
  accepted : List (Sample F)
  nextSample : Nat
  /-- The candidates whose `UpsertMinute` returned nil, in order. -/
  written : List (Candidate F)

variable [Float64 F]

namespace Bucket

/-- `&bucket{}`. -/
def fresh (id : Nat) : Bucket F :=
  { id, accumulator := .zero, revision := 0, samples := [], accumulator_eq := rfl
    revision_eq := rfl }

/-- `entry.accumulator.addAt(report, receivedAt); entry.revision++`. -/
def add (b : Bucket F) (x : Sample F) : Bucket F :=
  { b with
    accumulator := b.accumulator.addAt x.report x.receivedAt
    revision := b.revision + 1
    samples := b.samples ++ [x]
    accumulator_eq := by rw [aggregate_snoc, b.accumulator_eq]
    revision_eq := by
      rw [List.length_append, List.length_singleton, UInt64.ofNat_add, b.revision_eq]
      rfl }

/-- The candidate of a bucket. -/
def candidate (b : Bucket F) (key : Key) : Candidate F :=
  { key, bucket := b.id, revision := b.revision
    record := b.accumulator.finish key.serverID key.minuteUnix
    samples := b.samples
    record_eq := by rw [b.accumulator_eq]
    revision_eq := b.revision_eq }

end Bucket

namespace Flush

/-- The candidates that have still to be cleaned up. -/
def pending (fl : Flush F) : List (Candidate F) :=
  match fl.phase with
  | .writing todo _ => todo
  | .cleaning candidate _ todo _ => candidate :: todo
  | _ => []

/-- The call is past the gate. -/
def past (fl : Flush F) : Bool :=
  match fl.phase with
  | .entered | .checked | .writing _ _ | .cleaning _ _ _ _ => true
  | _ => false

/-- The calls of `UpsertMinute` made so far. -/
def upserts (fl : Flush F) : List (Candidate F) :=
  fl.log.map Attempt.candidate ++
    match fl.phase with
    | .cleaning candidate _ _ _ => [candidate]
    | _ => []

end Flush

namespace Aggregator

/-- `NewAggregator`, over empty tables. -/
def initial : Aggregator F :=
  { buckets := ∅, nextBucket := 0, gate := none, flushes := ∅, nextFlush := 0, rows := ∅
    accepted := [], nextSample := 0, written := [] }

def bucket? (s : Aggregator F) (key : Key) : Option (Bucket F) := AList.lookup key s.buckets

def flush? (s : Aggregator F) (f : Nat) : Option (Flush F) := AList.lookup f s.flushes

def row? (s : Aggregator F) (key : Key) : Option (MinutePayload F) := AList.lookup key s.rows

/-- The reports accepted for a key since its server was last removed. -/
def acceptedFor (s : Aggregator F) (key : Key) : List (Sample F) :=
  s.accepted.filter fun x => x.key == key

/-- One step. `write` is given what `UpsertMinute` returns and, should it fail, whether the row is
there all the same. -/
inductive Action (F : Type) where
  | accept (serverID : Int) (report : AgentReport F) (receivedAt : Time)
  | removeServer (serverID : Int)
  | call (boundary : Time)
  | cancel (f : Nat)
  | check (f : Nat)
  | enter (f : Nat)
  | abandon (f : Nat)
  | snapshot (f : Nat)
  | write (f : Nat) (err : Option FlushError) (stored : Bool)
  | clean (f : Nat)
  | leave (f : Nat)

def putFlush (s : Aggregator F) (f : Nat) (fl : Flush F) : Aggregator F :=
  { s with flushes := s.flushes.insert f fl }

/-- `Accept`. -/
def accept (s : Aggregator F) (x : Sample F) : Aggregator F :=
  { s with
    buckets := s.buckets.insert x.key (((s.bucket? x.key).getD (.fresh s.nextBucket)).add x)
    nextBucket := s.nextBucket + 1
    accepted := s.accepted ++ [x]
    nextSample := s.nextSample + 1 }

/-- `RemoveServer`. -/
def removeServer (s : Aggregator F) (serverID : Int) : Aggregator F :=
  { s with
    buckets := s.buckets.filterKeys fun key => key.serverID != serverID
    flushes := s.flushes.mapVals fun fl => { fl with removed := serverID :: fl.removed }
    accepted := s.accepted.filter fun x => x.serverID != serverID }

/-- The keys of a snapshot. -/
def keysBefore (s : Aggregator F) (boundary : Time) : List Key :=
  (s.buckets.keys.filter fun key => key.before boundary).insertionSort Key.LE

/-- The candidates of a snapshot. -/
def candidates (s : Aggregator F) (boundary : Time) : List (Candidate F) :=
  (s.keysBefore boundary).filterMap fun key => (s.bucket? key).map fun b => b.candidate key

/-- `UpsertMinute`, as far as it reaches the table. -/
def upsertMinute (s : Aggregator F) (record : MinuteRecord F) : Aggregator F :=
  { s with rows := s.rows.insert ⟨record.serverID, record.minuteUnix⟩ record.payload }

/-- The step of `UpsertMinute`. -/
def write (s : Aggregator F) (f : Nat) (fl : Flush F) (c : Candidate F) (todo : List (Candidate F))
    (firstErr err : Option FlushError) (stored : Bool) : Aggregator F :=
  let s := s.putFlush f { fl with phase := .cleaning c err todo firstErr }
  match err with
  | none => { s.upsertMinute c.record with written := s.written ++ [c] }
  | some _ => if stored then s.upsertMinute c.record else s

/-- The bucket in the map is the candidate's. -/
def same (s : Aggregator F) (c : Candidate F) : Bool :=
  (s.bucket? c.key).any fun b => b.id == c.bucket

/-- The bucket in the map has the candidate's revision. -/
def unchanged (s : Aggregator F) (c : Candidate F) : Bool :=
  (s.bucket? c.key).any fun b => b.revision == c.revision

/-- The cleanup of a candidate. -/
def clean (s : Aggregator F) (f : Nat) (fl : Flush F) (c : Candidate F) (todo : List (Candidate F))
    (firstErr err : Option FlushError) : Aggregator F :=
  let kept := if s.same c then err else none
  let s' := s.putFlush f { fl with
    phase := .writing todo (firstErr.or kept)
    log := fl.log ++ [⟨c, err, decide (c.key.serverID ∈ fl.removed)⟩] }
  if s.same c && err.isNone && s.unchanged c then { s' with buckets := s.buckets.erase c.key }
  else s'

/-- The step of a call in its phase. -/
def step (s : Aggregator F) : Action F → Aggregator F
  | .accept serverID report receivedAt =>
    s.accept { number := s.nextSample, serverID, report, receivedAt }
  | .removeServer serverID => s.removeServer serverID
  | .call boundary =>
    { s.putFlush s.nextFlush
        { boundary, cancelled := false, phase := .called, passed := false, taken := none
          removed := [], log := [] } with
      nextFlush := s.nextFlush + 1 }
  | .cancel f =>
    match s.flush? f with
    | none => s
    | some fl => s.putFlush f { fl with cancelled := true }
  | .check f =>
    match s.flush? f with
    | none => s
    | some fl =>
      match fl.phase with
      | .called =>
        s.putFlush f { fl with
          phase := if fl.cancelled then .returned (some .context) else .waiting }
      | .entered =>
        if fl.cancelled then
          { s.putFlush f { fl with phase := .returned (some .context) } with gate := none }
        else s.putFlush f { fl with phase := .checked }
      | _ => s
  | .enter f =>
    match s.flush? f with
    | none => s
    | some fl =>
      match fl.phase, s.gate with
      | .waiting, none =>
        { s.putFlush f { fl with phase := .entered, passed := true } with gate := some f }
      | _, _ => s
  | .abandon f =>
    match s.flush? f with
    | none => s
    | some fl =>
      match fl.phase, fl.cancelled with
      | .waiting, true => s.putFlush f { fl with phase := .returned (some .context) }
      | _, _ => s
  | .snapshot f =>
    match s.flush? f with
    | none => s
    | some fl =>
      match fl.phase with
      | .checked =>
        s.putFlush f { fl with
          phase := .writing (s.candidates fl.boundary) none
          taken := some (s.candidates fl.boundary), removed := [] }
      | _ => s
  | .write f err stored =>
    match s.flush? f with
    | none => s
    | some fl =>
      match fl.phase with
      | .writing (c :: todo) firstErr => s.write f fl c todo firstErr err stored
      | _ => s
  | .clean f =>
    match s.flush? f with
    | none => s
    | some fl =>
      match fl.phase with
      | .cleaning c err todo firstErr => s.clean f fl c todo firstErr err
      | _ => s
  | .leave f =>
    match s.flush? f with
    | none => s
    | some fl =>
      match fl.phase with
      | .writing [] firstErr =>
        { s.putFlush f { fl with phase := .returned firstErr } with gate := none }
      | _ => s

/-! ## What the operations leave under a key -/

section Laws

variable {s : Aggregator F} {f : Nat} {fl : Flush F}

@[simp] theorem bucket?_putFlush (key : Key) : (s.putFlush f fl).bucket? key = s.bucket? key := rfl

/-- A flush is put under its own number. -/
theorem flush?_putFlush (g : Nat) :
    (s.putFlush f fl).flush? g = if g = f then some fl else s.flush? g :=
  Map.lookup_insert _ _ _ _

/-- A report goes to the bucket of its minute, which it may open. -/
theorem bucket?_accept (x : Sample F) (key : Key) :
    (s.accept x).bucket? key =
      if key = x.key then some (((s.bucket? x.key).getD (.fresh s.nextBucket)).add x)
      else s.bucket? key :=
  Map.lookup_insert _ _ _ _

/-- `Accept` numbers the report, and puts it into the bucket of its minute. -/
theorem bucket?_step_accept (s : Aggregator F) (serverID : Int) (report : AgentReport F)
    (receivedAt : Time) (key : Key) :
    (s.step (.accept serverID report receivedAt)).bucket? key =
      if key = .of serverID receivedAt then
        some (((s.bucket? key).getD (.fresh s.nextBucket)).add
          { number := s.nextSample, serverID, report, receivedAt })
      else s.bucket? key := by
  refine (bucket?_accept _ key).trans ?_
  by_cases hkey : key = .of serverID receivedAt
  · rw [hkey]
    exact (if_pos rfl).trans (if_pos rfl).symm
  · exact (if_neg hkey).trans (if_neg hkey).symm

/-- Removing a server takes its buckets and no other. -/
theorem bucket?_removeServer (serverID : Int) (key : Key) :
    (s.removeServer serverID).bucket? key =
      if key.serverID = serverID then none else s.bucket? key := by
  apply (Map.lookup_filterKeys _ _ _).trans
  simp only [bne_iff_ne, ne_eq, ite_not]
  rfl

/-- A flush that is under way learns that the server was removed. -/
theorem flush?_removeServer (serverID : Int) :
    (s.removeServer serverID).flush? f =
      (s.flush? f).map fun fl => { fl with removed := serverID :: fl.removed } :=
  Map.lookup_mapVals _ _ _

/-- A bucket that is dropped is gone, and the others are not touched. -/
theorem bucket?_erase (key key' : Key) :
    ({ s with buckets := s.buckets.erase key' } : Aggregator F).bucket? key =
      if key = key' then none else s.bucket? key :=
  Map.lookup_erase _ _ _

/-- The keys of a snapshot come in strictly increasing order. -/
theorem pairwise_keysBefore (boundary : Time) : (s.keysBefore boundary).Pairwise Key.LT := by
  have hnodup : (s.keysBefore boundary).Nodup :=
    (List.perm_insertionSort _ _).nodup_iff.mpr (s.buckets.keys_nodup.filter _)
  have hsorted : (s.keysBefore boundary).Pairwise Key.LE := List.pairwise_insertionSort _ _
  exact hsorted.imp₂ (fun _ _ => Key.lt_of_le_of_ne) hnodup

/-- The keys before a boundary are those of the buckets whose minute has ended by then. -/
theorem mem_keysBefore {boundary : Time} {key : Key} :
    key ∈ s.keysBefore boundary ↔ (∃ b, s.bucket? key = some b) ∧ key.before boundary = true := by
  rw [keysBefore, (List.perm_insertionSort _ _).mem_iff, List.mem_filter, Map.mem_keys_iff]
  rfl

/-- A candidate is that of a live bucket of a minute before the boundary. -/
theorem mem_candidates {boundary : Time} {c : Candidate F} (h : c ∈ s.candidates boundary) :
    ∃ b, s.bucket? c.key = some b ∧ c = b.candidate c.key ∧ c.key.before boundary = true := by
  obtain ⟨key, hkey, hc⟩ := List.mem_filterMap.mp h
  obtain ⟨b, hb, rfl⟩ := Option.map_eq_some_iff.mp hc
  exact ⟨b, hb, rfl, (mem_keysBefore.mp hkey).2⟩

/-- Every live bucket of such a minute has one. -/
theorem candidate_mem {boundary : Time} {key : Key} {b : Bucket F} (hb : s.bucket? key = some b)
    (hbefore : key.before boundary = true) : b.candidate key ∈ s.candidates boundary :=
  List.mem_filterMap.mpr
    ⟨key, mem_keysBefore.mpr ⟨⟨b, hb⟩, hbefore⟩, by rw [hb, Option.map_some]⟩

/-- A flush goes through its candidates in the order of their keys. -/
theorem pairwise_candidates (boundary : Time) :
    (s.candidates boundary).Pairwise fun a b => a.key.LT b.key := by
  refine List.pairwise_filterMap.mpr ((s.pairwise_keysBefore boundary).imp fun h => ?_)
  rintro _ hc _ hc'
  obtain ⟨b, _, rfl⟩ := Option.map_eq_some_iff.mp hc
  obtain ⟨b', _, rfl⟩ := Option.map_eq_some_iff.mp hc'
  exact h

/-- A step of a flush, not of `Accept` or `RemoveServer`. -/
def Action.ofFlush : Action F → Bool
  | .accept _ _ _ | .removeServer _ => false
  | _ => true

/-- **What a flush leaves alone**: the reports accepted stay, the buckets it does not clean up stay
as they are, and only a write changes the rows. -/
theorem step_flush {a : Action F} (h : a.ofFlush = true) :
    (s.step a).accepted = s.accepted ∧
      (∀ key b, (s.step a).bucket? key = some b → s.bucket? key = some b) ∧
      ((∀ f err stored, a ≠ .write f err stored) → (s.step a).rows = s.rows) := by
  have hsame : ∀ s' : Aggregator F, s'.accepted = s.accepted → s'.buckets = s.buckets →
      ((∀ f err stored, a ≠ .write f err stored) → s'.rows = s.rows) →
      s'.accepted = s.accepted ∧ (∀ key b, s'.bucket? key = some b → s.bucket? key = some b) ∧
        ((∀ f err stored, a ≠ .write f err stored) → s'.rows = s.rows) :=
    fun s' ha hb hr => ⟨ha, fun key b hkey => by rwa [bucket?, hb] at hkey, hr⟩
  cases a with
  | accept _ _ _ => cases h
  | removeServer _ => cases h
  | call boundary => exact hsame _ rfl rfl fun _ => rfl
  | cancel f =>
    simp only [step]
    split <;> exact hsame _ rfl rfl fun _ => rfl
  | check f =>
    simp only [step]
    split
    next => exact hsame _ rfl rfl fun _ => rfl
    next =>
      split
      next => exact hsame _ rfl rfl fun _ => rfl
      next => split <;> exact hsame _ rfl rfl fun _ => rfl
      next => exact hsame _ rfl rfl fun _ => rfl
  | enter f | abandon f =>
    simp only [step]
    split
    next => exact hsame _ rfl rfl fun _ => rfl
    next => split <;> exact hsame _ rfl rfl fun _ => rfl
  | snapshot f | leave f =>
    simp only [step]
    split
    next => exact hsame _ rfl rfl fun _ => rfl
    next => split <;> exact hsame _ rfl rfl fun _ => rfl
  | write f err stored =>
    simp only [step]
    split
    next => exact hsame _ rfl rfl fun _ => rfl
    next =>
      split
      next =>
        unfold write
        cases err with
        | none => exact hsame _ rfl rfl fun hnot => absurd rfl (hnot f _ stored)
        | some e =>
          dsimp only
          split <;> exact hsame _ rfl rfl fun hnot => absurd rfl (hnot f _ stored)
      next => exact hsame _ rfl rfl fun _ => rfl
  | clean f =>
    simp only [step]
    split
    next => exact hsame _ rfl rfl fun _ => rfl
    next fl _ =>
      split
      next c err todo firstErr _ =>
        simp only [clean]
        split
        next =>
          refine ⟨rfl, ?_, fun _ => rfl⟩
          intro key b hkey
          have herase := (Map.lookup_erase s.buckets key c.key).symm.trans hkey
          split at herase
          next => cases herase
          next => exact herase
        next => exact hsame _ rfl rfl fun _ => rfl
      next => exact hsame _ rfl rfl fun _ => rfl

end Laws

end Aggregator

end TinyProbe.History
