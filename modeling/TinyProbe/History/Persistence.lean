import TinyProbe.Base.Ranged
import TinyProbe.Live.Ingest
import TinyProbe.History.Aggregate
import TinyProbe.History.Conservation

/-!
# Sums out of range

`validateReport` lets any finite load average pass, and a bucket adds them up. As soon as a running
sum leaves the range of float64 it is an infinity and remains one, so is the average, and
`json.Marshal` refuses the payload. The other series of a bucket are bounded by what they measure:
they would take more than 2^959 reports.

Sums are those of `Ranged`, so exact as long as they are in the range.
-/

namespace TinyProbe.History

open Protocol Live Run

/-! ## What is marshalled -/

section Numbers

variable {F : Type}

def Pair.numbers (p : Pair F) : List F := [p.average, p.maximum]

/-- The float64 fields, in the order of encoding. -/
def MinutePayload.numbers (p : MinutePayload F) : List F :=
  p.cpuUsage.numbers ++ p.load1.numbers ++ p.load5.numbers ++ p.load15.numbers ++
    p.memoryUsage.numbers ++ p.swapUsage.numbers ++ p.disks.flatMap (fun disk => disk.usage.numbers) ++
      p.diskReadBPS.numbers ++ p.diskWriteBPS.numbers ++ p.uploadBPS.numbers ++ p.downloadBPS.numbers

end Numbers

/-- The error of `json.Marshal` for a number. -/
def unsupported : Ranged → Option String
  | .fin _ => none
  | .nan => some "json: unsupported value: NaN"
  | .posInf => some "json: unsupported value: +Inf"
  | .negInf => some "json: unsupported value: -Inf"

/-- The error of `json.Marshal`, if it fails. -/
def marshal (p : MinutePayload Ranged) : Option String := p.numbers.findSome? unsupported

/-- What `Store.UpsertMinute` returns; `err` is what its statement returns. -/
def Store.upsertMinute (record : MinuteRecord Ranged) (err : Option FlushError) :
    Option FlushError :=
  match marshal record.payload with
  | some message => some (.write ("marshal minute payload: " ++ message))
  | none => err

/-! ## The series of a bucket -/

/-- The numeric series; each mountpoint has one. -/
inductive Series where
  | cpuUsage
  | load1
  | load5
  | load15
  | memoryUsage
  | swapUsage
  | disk (mountpoint : String)
  | diskRead
  | diskWrite
  | upload
  | download
deriving DecidableEq

namespace Series

variable {F : Type} [Float64 F]

/-- The load averages are what `validateReport` does not bound. -/
def isLoad : Series → Bool
  | .load1 | .load5 | .load15 => true
  | _ => false

/-- What a report adds to a series. -/
def value? (report : AgentReport F) : Series → Option F
  | .cpuUsage => some report.cpu.usagePercent
  | .load1 => some report.cpu.load1
  | .load5 => some report.cpu.load5
  | .load15 => some report.cpu.load15
  | .memoryUsage => some (usagePercent report.memory.usedBytes report.memory.totalBytes)
  | .swapUsage => some (usagePercent report.memory.swapUsedBytes report.memory.swapTotalBytes)
  | .disk mountpoint => (AList.lookup mountpoint (Accumulator.disksOf report.disks)).map fun disk =>
      usagePercent disk.usedBytes disk.totalBytes
  | .diskRead => some (Float64.ofUInt64 report.diskIO.readBytesPerSecond)
  | .diskWrite => some (Float64.ofUInt64 report.diskIO.writeBytesPerSecond)
  | .upload => some (Float64.ofUInt64 report.network.uploadBytesPerSecond)
  | .download => some (Float64.ofUInt64 report.network.downloadBytesPerSecond)

/-- The values of a series, in order. -/
def values (samples : List (Sample F)) (series : Series) : List F :=
  samples.filterMap fun x => series.value? x.report

/-- Where an accumulator sums up a series. -/
def numeric (a : Accumulator F) : Series → Numeric F
  | .cpuUsage => a.cpuUsage
  | .load1 => a.load1
  | .load5 => a.load5
  | .load15 => a.load15
  | .memoryUsage => a.memoryUsage
  | .swapUsage => a.swapUsage
  | .disk mountpoint => ((AList.lookup mountpoint a.disks).map DiskAccumulator.usage).getD .zero
  | .diskRead => a.diskReadBPS
  | .diskWrite => a.diskWriteBPS
  | .upload => a.uploadBPS
  | .download => a.downloadBPS

theorem usage_add (entry : DiskAccumulator F) (disk : DiskStats) (t : Time) :
    (entry.add disk t true).usage = entry.usage.add (usagePercent disk.usedBytes disk.totalBytes) := by
  unfold DiskAccumulator.add
  dsimp only
  split <;> rfl

/-- A report adds its value to every series it has one for. -/
theorem numeric_addAt (a : Accumulator F) (report : AgentReport F) (t : Time) (series : Series) :
    series.numeric (a.addAt report t) =
      (series.value? report).elim (series.numeric a) (series.numeric a).add := by
  rw [addAt_eq]
  cases series with
  | disk mountpoint =>
    simp only [numeric, value?, Accumulator.lookup_addDisks]
    cases AList.lookup mountpoint (Accumulator.disksOf report.disks) with
    | none => rfl
    | some disk =>
      rw [Option.elim_some, Option.map_some, Option.getD_some, usage_add]
      cases AList.lookup mountpoint a.disks <;> rfl
  | _ => rfl

/-- A bucket has added up the values of its reports. -/
theorem numeric_aggregate (samples : List (Sample F)) (series : Series) :
    series.numeric (aggregate samples) = (series.values samples).foldl Numeric.add .zero := by
  induction samples using List.reverseRecOn with
  | nil => cases series <;> rfl
  | append_singleton samples x ih =>
    rw [aggregate_snoc, numeric_addAt, ih, values, values, List.filterMap_append, List.foldl_append]
    cases h : series.value? x.report with
    | none => simp only [List.filterMap_cons, h, List.filterMap_nil, Option.elim_none, List.foldl_nil]
    | some v =>
      simp only [List.filterMap_cons, h, List.filterMap_nil, Option.elim_some, List.foldl_cons,
        List.foldl_nil]

/-- Every number of a payload is the average or the maximum of a series. -/
theorem mem_numbers {a : Accumulator F} {serverID minuteUnix : Int} {x : F}
    (h : x ∈ (a.finish serverID minuteUnix).payload.numbers) :
    ∃ series : Series, x ∈ (series.numeric a).pair.numbers := by
  simp only [MinutePayload.numbers, Accumulator.finish, List.mem_append, or_assoc,
    List.mem_flatMap] at h
  rcases h with h | h | h | h | h | h | ⟨disk, hdisk, hx⟩ | h | h | h | h
  · exact ⟨.cpuUsage, h⟩
  · exact ⟨.load1, h⟩
  · exact ⟨.load5, h⟩
  · exact ⟨.load15, h⟩
  · exact ⟨.memoryUsage, h⟩
  · exact ⟨.swapUsage, h⟩
  · obtain ⟨mountpoint, _, hlookup⟩ := List.mem_filterMap.mp hdisk
    obtain ⟨entry, hentry, rfl⟩ := Option.map_eq_some_iff.mp hlookup
    refine ⟨.disk mountpoint, ?_⟩
    rw [numeric, hentry]
    exact hx
  · exact ⟨.diskRead, h⟩
  · exact ⟨.diskWrite, h⟩
  · exact ⟨.upload, h⟩
  · exact ⟨.download, h⟩

end Series

/-! ## Sums in the range -/

/-- The running sums from `q` on stay in the range. -/
def SumsInRange (q : ℚ) : List Ranged → Prop
  | [] => True
  | x :: xs => InRange (q + x.toRat) ∧ SumsInRange (q + x.toRat) xs

namespace Numeric

open Ranged

theorem add_finite {q : ℚ} (hq : InRange q) {x : Ranged} (hx : x.finite = true) :
    Float64.add (ofRat q) x = ofRat (q + x.toRat) := by
  obtain ⟨r, rfl⟩ := finite_iff.mp hx
  rw [ofRat_of_inRange hq]
  rfl

/-- An infinite sum remains one. -/
theorem foldl_infinite (xs : List Ranged) {x : Ranged} (hx : x.finite = false)
    (hxs : ∀ y ∈ xs, y.finite = true) : (xs.foldl Float64.add x).finite = false := by
  induction xs generalizing x with
  | nil => exact hx
  | cons y ys ih =>
    obtain ⟨q, rfl⟩ := finite_iff.mp (hxs y List.mem_cons_self)
    refine ih ?_ fun z hz => hxs z (List.mem_cons_of_mem _ hz)
    cases x with
    | fin p => cases hx
    | nan => rfl
    | negInf => rfl
    | posInf => rfl

/-- A sum is finite as long as the running sums are in the range. -/
theorem foldl_finite_iff (xs : List Ranged) {q : ℚ} (hq : InRange q)
    (hxs : ∀ y ∈ xs, y.finite = true) :
    (xs.foldl Float64.add (ofRat q)).finite = true ↔ SumsInRange q xs := by
  induction xs generalizing q with
  | nil => exact iff_of_true (finite_ofRat.mpr hq) trivial
  | cons x xs ih =>
    have hrest : ∀ y ∈ xs, y.finite = true := fun y hy => hxs y (List.mem_cons_of_mem _ hy)
    rw [List.foldl_cons, add_finite hq (hxs x List.mem_cons_self)]
    by_cases hnext : InRange (q + x.toRat)
    · rw [ih hnext hrest]
      exact ⟨fun h => ⟨hnext, h⟩, fun h => h.2⟩
    · have hinfinite : (ofRat (q + x.toRat)).finite = false :=
        Bool.eq_false_iff.mpr fun h => hnext (finite_ofRat.mp h)
      rw [foldl_infinite xs hinfinite hrest]
      exact iff_of_false Bool.false_ne_true fun h => hnext h.1

theorem foldl_sum (xs : List Ranged) (n : Numeric Ranged) :
    (xs.foldl Numeric.add n).sum = xs.foldl Float64.add n.sum := by
  induction xs generalizing n with
  | nil => rfl
  | cons x xs ih => exact ih (n.add x)

/-- The maximum is one of the values, or the zero at the start. -/
theorem foldl_max_finite (xs : List Ranged) (n : Numeric Ranged) (hn : n.max.finite = true)
    (hxs : ∀ y ∈ xs, y.finite = true) : (xs.foldl Numeric.add n).max.finite = true := by
  induction xs generalizing n with
  | nil => exact hn
  | cons x xs ih =>
    refine ih (n.add x) ?_ fun y hy => hxs y (List.mem_cons_of_mem _ hy)
    unfold Numeric.add
    dsimp only
    split
    next => exact hxs x List.mem_cons_self
    next => exact hn

theorem sum_finite_iff (xs : List Ranged) (hxs : ∀ y ∈ xs, y.finite = true) :
    (xs.foldl Numeric.add (Numeric.zero : Numeric Ranged)).sum.finite = true ↔ SumsInRange 0 xs := by
  have hzero : (Numeric.zero : Numeric Ranged).sum = ofRat 0 := congrArg ofRat Nat.cast_zero
  rw [foldl_sum, hzero]
  exact foldl_finite_iff xs inRange_zero hxs

theorem inRange_div {q : ℚ} (hq : InRange q) {n : Nat} (hn : n ≠ 0) : InRange (q / n) := by
  have hone : (1 : ℚ) ≤ n := Nat.one_le_cast.mpr (Nat.one_le_iff_ne_zero.mpr hn)
  have hpos : (0 : ℚ) < n := lt_of_lt_of_le one_pos hone
  have hlarge : largest ≤ largest * n := le_mul_of_one_le_right largest_nonneg hone
  refine ⟨(le_div_iff₀ hpos).mpr ?_, (div_le_iff₀ hpos).mpr (le_trans hq.2 hlarge)⟩
  rw [neg_mul]
  exact le_trans (neg_le_neg hlarge) hq.1

/-- A finite sum has a finite average. -/
theorem pair_finite {n : Numeric Ranged} (hsum : n.sum.finite = true) (hmax : n.max.finite = true) :
    ∀ x ∈ n.pair.numbers, x.finite = true := by
  have hzero : (Float64.ofNat 0 : Ranged).finite = true :=
    FiniteFloat.finite_ofNat (F := Ranged) 0 (by decide)
  have haverage : n.count ≠ 0 →
      (Float64.div n.sum (Float64.ofUInt64 n.count : Ranged)).finite = true := by
    intro hcount
    have hne : n.count.toNat ≠ 0 := fun h => hcount (UInt64.toNat_inj.mp h)
    obtain ⟨q, hq⟩ := finite_iff.mp hsum
    have hdiv : Float64.div n.sum (Float64.ofUInt64 n.count : Ranged) =
        ofRat (q.1 / (n.count.toNat : ℚ)) := by
      rw [hq]
      show Ranged.div (fin q) (ofRat (n.count.toNat : ℚ)) = _
      rw [ofRat_of_inRange (inRange_natCast (UInt64.toNat_lt n.count))]
      exact if_neg (Nat.cast_ne_zero.mpr hne)
    rw [hdiv]
    exact finite_ofRat.mpr (inRange_div q.2 hne)
  intro x hx
  unfold Numeric.pair at hx
  split at hx
  next =>
    rcases List.mem_cons.mp hx with rfl | hx
    · exact hzero
    · rw [List.mem_singleton.mp hx]
      exact hzero
  next hcount =>
    rcases List.mem_cons.mp hx with rfl | hx
    · exact haverage hcount
    · rw [List.mem_singleton.mp hx]
      exact hmax

end Numeric

/-! ## What validated reports add -/

section Values

open Ranged

/-- A measured value: finite, not negative and at most 2^64. -/
structure Measured (x : Ranged) : Prop where
  finite : x.finite = true
  nonneg : 0 ≤ x.toRat
  le : x.toRat ≤ (2 ^ 64 : Nat)

theorem measured_ofRat {q : ℚ} (hq : 0 ≤ q) (hle : q ≤ (2 ^ 64 : Nat)) : Measured (ofRat q) := by
  have hrange : InRange q :=
    inRange_of_nonneg hq (le_trans hle (natCast_le_largest (by decide +kernel)))
  refine ⟨finite_ofRat.mpr hrange, ?_, ?_⟩
  · rw [toRat_ofRat hrange]
    exact hq
  · rw [toRat_ofRat hrange]
    exact hle

theorem measured_ofUInt64 (n : UInt64) : Measured (Float64.ofUInt64 n) :=
  measured_ofRat (Nat.cast_nonneg _) (Nat.cast_le.mpr (le_of_lt (UInt64.toNat_lt n)))

/-- Used space within the capacity is at most a hundred percent. -/
theorem measured_usagePercent {used total : UInt64} (h : used ≤ total) :
    Measured (usagePercent used total) := by
  unfold usagePercent
  split
  next => exact measured_ofUInt64 0
  next htotal =>
    have hne : (total.toNat : ℚ) ≠ 0 :=
      Nat.cast_ne_zero.mpr fun heq => htotal (UInt64.toNat_inj.mp heq)
    have hpos : (0 : ℚ) < total.toNat := lt_of_le_of_ne (Nat.cast_nonneg _) (Ne.symm hne)
    have hnonneg : (0 : ℚ) ≤ used.toNat / total.toNat :=
      div_nonneg (Nat.cast_nonneg _) (Nat.cast_nonneg _)
    have hone : (used.toNat : ℚ) / total.toNat ≤ 1 :=
      (div_le_one hpos).mpr (Nat.cast_le.mpr (UInt64.le_iff_toNat_le.mp h))
    have hquotient : InRange ((used.toNat : ℚ) / total.toNat) := by
      refine inRange_of_nonneg hnonneg (le_trans hone ?_)
      rw [← Nat.cast_one]
      exact natCast_le_largest (by decide +kernel)
    have hdiv : Float64.div (Float64.ofUInt64 used : Ranged) (Float64.ofUInt64 total) =
        ofRat ((used.toNat : ℚ) / total.toNat) := by
      show Ranged.div (ofRat (used.toNat : ℚ)) (ofRat (total.toNat : ℚ)) = _
      rw [ofRat_of_inRange (inRange_natCast (UInt64.toNat_lt used)),
        ofRat_of_inRange (inRange_natCast (UInt64.toNat_lt total))]
      exact if_neg hne
    have hmul : Float64.mul (ofRat ((used.toNat : ℚ) / total.toNat)) (Float64.ofNat 100 : Ranged) =
        ofRat ((used.toNat : ℚ) / total.toNat * (100 : Nat)) := by
      show Ranged.mul _ (ofRat ((100 : Nat) : ℚ)) = _
      rw [ofRat_of_inRange hquotient,
        ofRat_of_inRange (inRange_natCast (n := 100) (by decide +kernel))]
      rfl
    rw [hdiv, hmul]
    refine measured_ofRat (mul_nonneg hnonneg (Nat.cast_nonneg _)) ?_
    have hhundred : (used.toNat : ℚ) / total.toNat * (100 : Nat) ≤ (100 : Nat) :=
      mul_le_of_le_one_left (Nat.cast_nonneg _) hone
    exact le_trans hhundred (Nat.cast_le.mpr (by decide +kernel))

variable {report : AgentReport Ranged} {series : Series} {x : Ranged}

/-- What a validated report adds is finite, and measured unless it is a load average. -/
theorem value?_validated (h : Validated report) (hx : series.value? report = some x) :
    x.finite = true ∧ (series.isLoad = false → Measured x) := by
  have hmeasured : Measured x → x.finite = true ∧ (series.isLoad = false → Measured x) :=
    fun hm => ⟨hm.finite, fun _ => hm⟩
  cases series with
  | cpuUsage =>
    cases hx
    obtain ⟨q, hq⟩ := finite_iff.mp h.usage
    have hnonneg := h.usage_nonneg
    have hle := h.usage_le
    rw [hq] at hnonneg hle ⊢
    have hzero : (0 : ℚ) ≤ q.1 := by
      have hlt : Ranged.lt (fin q) (ofRat ((0 : Nat) : ℚ)) = false := hnonneg
      rw [ofRat_of_inRange (inRange_natCast (n := 0) (by decide))] at hlt
      rw [← Nat.cast_zero]
      exact lt_fin.mp hlt
    have hhundred : q.1 ≤ (100 : Nat) := by
      have hlt : Ranged.lt (ofRat ((100 : Nat) : ℚ)) (fin q) = false := hle
      rw [ofRat_of_inRange (inRange_natCast (n := 100) (by decide +kernel))] at hlt
      exact lt_fin.mp hlt
    exact ⟨rfl, fun _ => ⟨rfl, hzero, le_trans hhundred (Nat.cast_le.mpr (by decide +kernel))⟩⟩
  | load1 =>
    cases hx
    exact ⟨h.load1, fun hload => by cases hload⟩
  | load5 =>
    cases hx
    exact ⟨h.load5, fun hload => by cases hload⟩
  | load15 =>
    cases hx
    exact ⟨h.load15, fun hload => by cases hload⟩
  | memoryUsage =>
    cases hx
    exact hmeasured (measured_usagePercent h.memory)
  | swapUsage =>
    cases hx
    exact hmeasured (measured_usagePercent h.swap)
  | disk mountpoint =>
    obtain ⟨disk, hdisk, rfl⟩ := Option.map_eq_some_iff.mp hx
    rw [lookup_disksOf] at hdisk
    exact hmeasured (measured_usagePercent (h.disks disk (Stream.lastOf_mem hdisk).1))
  | _ =>
    cases hx
    exact hmeasured (measured_ofUInt64 _)

/-- Measured values stay in the range for 2^959 reports and more. -/
theorem sumsInRange_of_measured (xs : List Ranged) {q : ℚ} (hq : 0 ≤ q)
    (hxs : ∀ x ∈ xs, Measured x) (hsum : q + (xs.length : ℚ) * (2 ^ 64 : Nat) ≤ largest) :
    SumsInRange q xs := by
  induction xs generalizing q with
  | nil => trivial
  | cons x xs ih =>
    have hx := hxs x List.mem_cons_self
    have hnext : 0 ≤ q + x.toRat := add_nonneg hq hx.nonneg
    have hlength : q + x.toRat + (xs.length : ℚ) * (2 ^ 64 : Nat) ≤ largest := by
      rw [List.length_cons, Nat.cast_succ, add_mul, one_mul] at hsum
      refine le_trans ?_ hsum
      have hadd : x.toRat + (xs.length : ℚ) * (2 ^ 64 : Nat) ≤
          (xs.length : ℚ) * (2 ^ 64 : Nat) + (2 ^ 64 : Nat) := by
        rw [add_comm]
        exact add_le_add_right hx.le _
      rw [add_assoc]
      exact add_le_add_right hadd q
    have hhere : q + x.toRat ≤ largest :=
      le_trans (le_add_of_nonneg_right (mul_nonneg (Nat.cast_nonneg _) (Nat.cast_nonneg _))) hlength
    exact ⟨inRange_of_nonneg hnext hhere,
      ih hnext (fun y hy => hxs y (List.mem_cons_of_mem x hy)) hlength⟩

end Values

/-! ## Buckets that can be stored -/

/-- The bucket of a key can be stored: its sums and the numbers of its payload are finite, marshalling
the payload does not fail, and a flush whose statement succeeds removes the bucket. -/
structure Persistable (b : Bucket Ranged) (key : Key) : Prop where
  sums : ∀ series : Series, (series.numeric b.accumulator).sum.finite = true
  numbers : ∀ x ∈ (b.candidate key).record.payload.numbers, x.finite = true
  upserts : ∀ err, Store.upsertMinute (b.candidate key).record err = err
  flushed : ∀ (s : Aggregator Ranged) (f : Nat) (fl : Flush Ranged) (todo : List (Candidate Ranged))
    (firstErr : Option FlushError), s.bucket? key = some b → s.flush? f = some fl →
      fl.phase = .writing (b.candidate key :: todo) firstErr →
        (run Aggregator.step s
          [.write f (Store.upsertMinute (b.candidate key).record none) false, .clean f]).bucket? key =
            none

/-- The running sums of the load averages stay in the range. -/
def LoadsInRange (samples : List (Sample Ranged)) : Prop :=
  ∀ series : Series, series.isLoad = true → SumsInRange 0 (series.values samples)

/-- The running sums of the other series stay in the range. -/
def RestInRange (samples : List (Sample Ranged)) : Prop :=
  ∀ series : Series, series.isLoad = false → SumsInRange 0 (series.values samples)

/-- So many reports cannot overflow a measured series. -/
def reportLimit : Nat := 2 ^ 959

section Buckets

variable {samples : List (Sample Ranged)}

theorem values_validated (hvalid : ∀ x ∈ samples, validateReport x.report = .ok ()) {series : Series}
    {v : Ranged} (hv : v ∈ series.values samples) :
    v.finite = true ∧ (series.isLoad = false → Measured v) := by
  obtain ⟨x, hx, hvalue⟩ := List.mem_filterMap.mp hv
  exact value?_validated (validateReport_ok_iff.mp (hvalid x hx)) hvalue

/-- Below the limit the measured series stay in the range. -/
theorem restInRange (hvalid : ∀ x ∈ samples, validateReport x.report = .ok ())
    (hlength : samples.length ≤ reportLimit) : RestInRange samples := by
  intro series hload
  refine sumsInRange_of_measured _ (le_refl 0) (fun v hv => (values_validated hvalid hv).2 hload) ?_
  have hvalues : (series.values samples).length ≤ reportLimit :=
    le_trans (List.length_filterMap_le _ _) hlength
  rw [zero_add, ← Nat.cast_mul]
  refine Ranged.natCast_le_largest (le_trans (Nat.mul_le_mul_right _ hvalues) ?_)
  unfold reportLimit
  decide +kernel

/-- The payload of finite sums is marshalled. -/
theorem marshal_finite {p : MinutePayload Ranged} (h : ∀ x ∈ p.numbers, x.finite = true) :
    marshal p = none := by
  refine List.findSome?_eq_none_iff.mpr fun x hx => ?_
  obtain ⟨q, rfl⟩ := Ranged.finite_iff.mp (h x hx)
  rfl

/-- **A bucket of validated reports can be stored** exactly if the running sums of its load averages
stay in the range of float64, and for more than 2^959 reports those of its other series, too. -/
theorem persistable_iff (b : Bucket Ranged) (key : Key)
    (hvalid : ∀ x ∈ b.samples, validateReport x.report = .ok ()) :
    Persistable b key ↔
      LoadsInRange b.samples ∧ (reportLimit < b.samples.length → RestInRange b.samples) := by
  have hseries : ∀ series : Series,
      (series.numeric b.accumulator).sum.finite = true ↔ SumsInRange 0 (series.values b.samples) := by
    intro series
    rw [b.accumulator_eq, Series.numeric_aggregate]
    exact Numeric.sum_finite_iff _ fun v hv => (values_validated hvalid hv).1
  constructor
  · intro h
    exact ⟨fun series _ => (hseries series).mp (h.sums series),
      fun _ series _ => (hseries series).mp (h.sums series)⟩
  · rintro ⟨hloads, hrest⟩
    have hsums : ∀ series : Series, (series.numeric b.accumulator).sum.finite = true := by
      intro series
      refine (hseries series).mpr ?_
      cases hload : series.isLoad with
      | true => exact hloads series hload
      | false =>
        rcases Nat.lt_or_ge reportLimit b.samples.length with hlt | hle
        · exact hrest hlt series hload
        · exact restInRange hvalid hle series hload
    have hmax : ∀ series : Series, (series.numeric b.accumulator).max.finite = true := by
      intro series
      rw [b.accumulator_eq, Series.numeric_aggregate]
      exact Numeric.foldl_max_finite _ _ (FiniteFloat.finite_ofNat (F := Ranged) 0 (by decide))
        fun v hv => (values_validated hvalid hv).1
    have hnumbers : ∀ x ∈ (b.candidate key).record.payload.numbers, x.finite = true := by
      intro x hx
      obtain ⟨series, hmem⟩ := Series.mem_numbers hx
      exact Numeric.pair_finite (hsums series) (hmax series) x hmem
    have hupsert : ∀ err, Store.upsertMinute (b.candidate key).record err = err := by
      intro err
      unfold Store.upsertMinute
      rw [marshal_finite hnumbers]
    refine ⟨hsums, hnumbers, hupsert, fun s f fl todo firstErr hb hf hphase => ?_⟩
    rw [hupsert]
    exact (Aggregator.run_drop hf hphase hb rfl rfl).1

end Buckets

/-- A report of one load average, received at `receivedAt`. -/
def loadSample (number : Nat) (load1 : Ranged) (receivedAt : Time) : Sample Ranged :=
  let report : AgentReport Ranged := AgentReport.ofCPU (Float64.ofNat 10)
  { number, serverID := 1, receivedAt
    report :=
      { report with
        collectedAtUnix := 1, hostname := "web", cpu := { report.cpu with load1 }
        disks := [{ mountpoint := "/", totalBytes := 100, usedBytes := 40 }] } }

/-- The bucket of two reports with the same load average. -/
def loadBucket (load1 : Ranged) : Bucket Ranged :=
  ((Bucket.fresh 0).add (loadSample 0 load1 (.ofUnix 10))).add (loadSample 1 load1 (.ofUnix 20))

/-- Two reports with the largest finite load average pass, and their bucket cannot be stored. -/
theorem largest_loads_unsupported :
    (∀ x ∈ (loadBucket (.ofRat largest)).samples, validateReport x.report = .ok ()) ∧
      Store.upsertMinute ((loadBucket (.ofRat largest)).candidate ⟨1, 0⟩).record none =
        some (.write "marshal minute payload: json: unsupported value: +Inf") ∧
          ¬ Persistable (loadBucket (.ofRat largest)) ⟨1, 0⟩ := by
  have hupsert : Store.upsertMinute ((loadBucket (.ofRat largest)).candidate ⟨1, 0⟩).record none =
      some (.write "marshal minute payload: json: unsupported value: +Inf") := by decide +kernel
  refine ⟨by decide +kernel, hupsert, fun h => ?_⟩
  cases hupsert.symm.trans (h.upserts none)

theorem loadBucket_one_persistable : Persistable (loadBucket (.ofRat 1)) ⟨1, 0⟩ := by
  refine (persistable_iff _ _ (by decide +kernel)).mpr ⟨fun series hload => ?_, fun hlong => ?_⟩
  · cases series with
    | load1 => exact ⟨by decide +kernel, by decide +kernel, trivial⟩
    | load5 => exact ⟨by decide +kernel, by decide +kernel, trivial⟩
    | load15 => exact ⟨by decide +kernel, by decide +kernel, trivial⟩
    | _ => cases hload
  · exact absurd hlong (by decide +kernel)

end TinyProbe.History
