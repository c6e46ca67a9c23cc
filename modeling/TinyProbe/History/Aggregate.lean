import TinyProbe.History.Accumulator
import TinyProbe.Lib.Ranked
import TinyProbe.Lib.Stream
import Mathlib.Algebra.BigOperators.Group.List.Basic
import Mathlib.Order.Bounds.Defs
import Mathlib.Tactic.NormNum

/-!
# What a minute record says

The record of a minute by what it is made of (`Aggregates`): every series has its mean and its
maximum, every mountpoint that occurs has one entry over the reports it occurs in, and the last
values are those of the report received last. `Finish` computes it in exact arithmetic from any
sequence of fewer than 2^64 reports (`aggregates_finish`). As the description fixes the record and
does not depend on the order of reports received at different instants, neither does the record
(`Aggregates.perm`, `Aggregates.unique`).

The counters are `uint64`: 2^64 reports bring them back to zero, and the average is gone
(`wrapped_not_aggregates`).
-/

namespace TinyProbe.History

open Protocol Ranked

/-- A report with exact readings, and when it was received. -/
abbrev Arrival := AgentReport ℚ × Time

/-- The readings as values of the exact arithmetic. -/
def exactCPU (cpu : CPUStats ℚ) : CPUStats Exact :=
  { usagePercent := .fin cpu.usagePercent, load1 := .fin cpu.load1, load5 := .fin cpu.load5
    load15 := .fin cpu.load15 }

def exactReport (report : AgentReport ℚ) : AgentReport Exact :=
  { collectedAtUnix := report.collectedAtUnix, agentVersion := report.agentVersion
    hostname := report.hostname, cpu := exactCPU report.cpu, memory := report.memory
    disks := report.disks, diskIO := report.diskIO, network := report.network }

/-- The reports added to one accumulator, in order. -/
def accumulate (arrivals : List Arrival) : Accumulator Exact :=
  arrivals.foldl (fun a arrival => a.addAt (exactReport arrival.1) arrival.2) .zero

/-! ## The description -/

/-- The mean and the maximum of a series. -/
structure IsPair (p : Pair Exact) (values : List ℚ) : Prop where
  average : p.average = .fin (values.sum / values.length)
  maximum : ∃ m, p.maximum = .fin m ∧ IsGreatest {v | v ∈ values} m

/-- `usagePercent`, exactly. -/
def percent (used total : UInt64) : ℚ :=
  if total = 0 then 0 else (used.toNat : ℚ) / total.toNat * 100

/-- The readings of a mountpoint, one of each report that contains it: its last entry there. -/
def readings (mountpoint : String) (arrivals : List Arrival) : List (DiskStats × Time) :=
  arrivals.filterMap fun arrival =>
    (Stream.lastOf DiskStats.mountpoint mountpoint arrival.1.disks).map (·, arrival.2)

/-- What a record says of one mountpoint. -/
structure DiskAggregates (arrivals : List Arrival) (disk : DiskMinute Exact) : Prop where
  usage : IsPair disk.usage
    ((readings disk.mountpoint arrivals).map fun reading =>
      percent reading.1.usedBytes reading.1.totalBytes)
  last : ∃ reading, Newest (fun r => r.2.ns) (readings disk.mountpoint arrivals) reading ∧
    disk.totalBytes = reading.1.totalBytes ∧ disk.usedBytes = reading.1.usedBytes

/-- What a record says of the reports of its minute. -/
structure Aggregates (arrivals : List Arrival) (p : MinutePayload Exact) : Prop where
  cpuUsage : IsPair p.cpuUsage (arrivals.map fun r => r.1.cpu.usagePercent)
  load1 : IsPair p.load1 (arrivals.map fun r => r.1.cpu.load1)
  load5 : IsPair p.load5 (arrivals.map fun r => r.1.cpu.load5)
  load15 : IsPair p.load15 (arrivals.map fun r => r.1.cpu.load15)
  memoryUsage : IsPair p.memoryUsage
    (arrivals.map fun r => percent r.1.memory.usedBytes r.1.memory.totalBytes)
  swapUsage : IsPair p.swapUsage
    (arrivals.map fun r => percent r.1.memory.swapUsedBytes r.1.memory.swapTotalBytes)
  diskReadBPS : IsPair p.diskReadBPS
    (arrivals.map fun r => (UInt64.toNat r.fst.diskIO.readBytesPerSecond : ℚ))
  diskWriteBPS : IsPair p.diskWriteBPS
    (arrivals.map fun r => (UInt64.toNat r.fst.diskIO.writeBytesPerSecond : ℚ))
  uploadBPS : IsPair p.uploadBPS
    (arrivals.map fun r => (r.1.network.uploadBytesPerSecond.toNat : ℚ))
  downloadBPS : IsPair p.downloadBPS
    (arrivals.map fun r => (r.1.network.downloadBytesPerSecond.toNat : ℚ))
  /-- One entry a mountpoint, in order. -/
  ordered : (p.disks.map DiskMinute.mountpoint).Pairwise (· < ·)
  mountpoints : ∀ mountpoint, mountpoint ∈ p.disks.map DiskMinute.mountpoint ↔
    ∃ arrival ∈ arrivals, ∃ disk ∈ arrival.1.disks, disk.mountpoint = mountpoint
  disks : ∀ disk ∈ p.disks, DiskAggregates arrivals disk
  totals : ∃ arrival, Newest (fun r => r.2.ns) arrivals arrival ∧
    p.totalUpload = arrival.1.network.totalUploadBytes ∧
    p.totalDownload = arrival.1.network.totalDownloadBytes

/-! ## One series -/

/-- A counter that has taken in the values, short of 2^64 of them. -/
structure Sums (n : Numeric Exact) (values : List ℚ) : Prop where
  count : n.count = UInt64.ofNat values.length
  sum : n.sum = .fin values.sum
  max : values ≠ [] → ∃ m, n.max = .fin m ∧ IsGreatest {v | v ∈ values} m

theorem sums_zero : Sums .zero [] where
  count := rfl
  sum := rfl
  max h := absurd rfl h

/-- The comparison in `add` keeps the greatest of the values. -/
theorem isGreatest_snoc {values : List ℚ} {m : ℚ} (h : IsGreatest {v | v ∈ values} m) (value : ℚ) :
    IsGreatest {v | v ∈ values ++ [value]} (if m < value then value else m) := by
  refine ⟨?_, fun v hv => ?_⟩
  · split
    next => exact List.mem_append_right _ List.mem_cons_self
    next => exact List.mem_append_left _ h.1
  · rcases List.mem_append.mp hv with hv | hv
    · have hle : v ≤ m := h.2 hv
      split
      next hlt => exact le_trans hle (le_of_lt hlt)
      next => exact hle
    · rw [List.mem_singleton.mp hv]
      split
      next => exact le_refl _
      next hlt => exact not_lt.mp hlt

/-- Below 2^64 the counter says how many there were. -/
theorem ofNat_eq_iff {k k' : Nat} (hk : k < 2 ^ 64) (hk' : k' < 2 ^ 64) :
    UInt64.ofNat k = UInt64.ofNat k' ↔ k = k' := by
  refine ⟨fun h => ?_, congrArg _⟩
  have := congrArg UInt64.toNat h
  rwa [UInt64.toNat_ofNat_of_lt' hk, UInt64.toNat_ofNat_of_lt' hk'] at this

/-- One more value: the count does not wrap before 2^64 values. -/
theorem Sums.add {n : Numeric Exact} {values : List ℚ} (h : Sums n values)
    (hlength : values.length + 1 < 2 ^ 64) (value : ℚ) :
    Sums (n.add (.fin value)) (values ++ [value]) := by
  have hcount : n.count + 1 = UInt64.ofNat (values.length + 1) := by
    rw [h.count, UInt64.ofNat_add]
    rfl
  have hone : n.count + 1 = 1 ↔ values.length + 1 = 1 := by
    rw [hcount]
    exact ofNat_eq_iff hlength (by decide)
  refine ⟨?_, ?_, fun _ => ?_⟩
  · show n.count + 1 = _
    rw [hcount, List.length_append, List.length_singleton]
  · show Float64.add n.sum (Exact.fin value) = _
    rw [h.sum, List.sum_append, List.sum_singleton]
    rfl
  · show ∃ m, (if n.count + 1 = 1 ∨ Float64.lt n.max (.fin value) then Exact.fin value else n.max) =
      .fin m ∧ _
    cases values with
    | nil =>
      refine ⟨value, if_pos (Or.inl (hone.mpr rfl)), List.mem_cons_self, fun v hv => ?_⟩
      rw [List.mem_singleton.mp hv]
    | cons v values =>
      obtain ⟨m, hm, hgreatest⟩ := h.max (List.cons_ne_nil _ _)
      refine ⟨_, ?_, isGreatest_snoc hgreatest value⟩
      have hmore : ¬ n.count + 1 = 1 := fun h => Nat.succ_ne_zero _ (Nat.succ.inj (hone.mp h))
      have hlt : Float64.lt n.max (.fin value) = decide (m < value) := by
        rw [hm]
        rfl
      rw [hlt]
      by_cases hmv : m < value
      · rw [if_pos (Or.inr (decide_eq_true hmv)), if_pos hmv]
      · rw [if_neg, if_neg hmv, hm]
        rintro (h | h)
        · exact hmore h
        · exact hmv (of_decide_eq_true h)

/-- What `pair` makes of it. -/
theorem Sums.pair {n : Numeric Exact} {values : List ℚ} (h : Sums n values) (hne : values ≠ [])
    (hlength : values.length < 2 ^ 64) : IsPair n.pair values := by
  have hcount : ¬ n.count = 0 := by
    rw [h.count]
    exact fun heq => hne (List.length_eq_zero_iff.mp ((ofNat_eq_iff hlength (by decide)).mp heq))
  have hpair : n.pair = { average := Float64.div n.sum (Float64.ofUInt64 n.count), maximum := n.max } :=
    if_neg hcount
  rw [hpair]
  refine ⟨?_, h.max hne⟩
  show Float64.div n.sum (Float64.ofUInt64 n.count) = _
  rw [h.sum, h.count, Float64.ofUInt64, UInt64.toNat_ofNat_of_lt' hlength]
  rfl

/-! ## Last values -/

/-- A report becomes the newest if it supersedes the last values, and else leaves it as it is. -/
theorem newest_snoc_cases {A : Type} {last : Option Time} {l : List (A × Time)}
    (hempty : l = [] → last = none)
    (hlast : ∀ r, Newest (fun r => r.2.ns) l r → last = some r.2) {x : A} {t : Time}
    {r : A × Time} (h : Newest (fun r => r.2.ns) (l ++ [(x, t)]) r) :
    supersedes last t true = true ∧ r = (x, t) ∨
      supersedes last t true = false ∧ Newest (fun r => r.2.ns) l r := by
  by_cases hl : l = []
  · rw [hempty hl]
    rw [hl] at h
    exact Or.inl ⟨rfl, List.mem_singleton.mp h.mem⟩
  · obtain ⟨r', hr'⟩ := exists_newest (fun r : A × Time => r.2.ns) hl
    rw [hlast r' hr']
    by_cases hlt : t.ns < r'.2.ns
    · refine Or.inr ⟨?_, h.unique (hr'.snoc hlt) ▸ hr'⟩
      simp only [supersedes, Bool.not_true, Bool.false_or, Option.all_some, Bool.not_eq_false',
        Time.before_iff]
      exact hlt
    · refine Or.inl ⟨?_, h.unique (newest_snoc fun c hc => ?_)⟩
      · simp only [supersedes, Bool.not_true, Bool.false_or, Option.all_some, Bool.not_eq_true',
          Bool.eq_false_iff, ne_eq, Time.before_iff]
        exact hlt
      · exact le_trans (hr'.rank_le hc) (not_lt.mp hlt)

/-! ## One mountpoint -/

/-- An entry of `disks` that has taken in the readings. -/
structure DiskSums (e : DiskAccumulator Exact) (readings : List (DiskStats × Time)) : Prop where
  usage : Sums e.usage (readings.map fun r => percent r.1.usedBytes r.1.totalBytes)
  empty : readings = [] → e.lastReceivedAt = none
  newest : ∀ r, Newest (fun r => r.2.ns) readings r → e.lastReceivedAt = some r.2 ∧
    e.totalBytes = r.1.totalBytes ∧ e.usedBytes = r.1.usedBytes

/-- With exact numbers the percentage is the exact quotient, and zero for a total of zero. -/
theorem usagePercent_exact (used total : UInt64) :
    (usagePercent used total : Exact) = .fin (percent used total) := by
  unfold usagePercent percent
  split
  next => rfl
  next => rfl

/-- One more reading of a disk, whose totals are those of the last one. -/
theorem DiskSums.add {e : DiskAccumulator Exact} {readings : List (DiskStats × Time)}
    (h : DiskSums e readings) (hlength : readings.length + 1 < 2 ^ 64) (disk : DiskStats)
    (t : Time) : DiskSums (e.add disk t true) (readings ++ [(disk, t)]) := by
  have husage : Sums (e.usage.add (usagePercent disk.usedBytes disk.totalBytes))
      ((readings ++ [(disk, t)]).map fun r => percent r.1.usedBytes r.1.totalBytes) := by
    rw [usagePercent_exact, List.map_append]
    exact h.usage.add (by rwa [List.length_map]) _
  unfold DiskAccumulator.add
  dsimp only
  refine ⟨?_, fun hnil => absurd hnil (List.append_ne_nil_of_right_ne_nil _ (List.cons_ne_nil _ _)),
    fun r hr => ?_⟩
  · split
    next => exact husage
    next => exact husage
  · rcases newest_snoc_cases h.empty (fun r hr => (h.newest r hr).1) hr with ⟨hs, rfl⟩ | ⟨hs, hr⟩
    · rw [if_pos hs]
      exact ⟨rfl, rfl, rfl⟩
    · rw [if_neg (by rw [hs]; exact Bool.false_ne_true)]
      exact h.newest r hr

/-- The entry that a mountpoint gets when it first occurs. -/
def newEntry : DiskAccumulator Exact :=
  { usage := .zero, totalBytes := 0, usedBytes := 0, lastReceivedAt := none }

theorem diskSums_newEntry : DiskSums newEntry [] where
  usage := sums_zero
  empty _ := rfl
  newest _ hr := absurd hr.mem List.not_mem_nil

/-- Of a report that names a mountpoint twice, the later reading counts. -/
theorem lookup_disksOf (mountpoint : String) (disks : List DiskStats) :
    AList.lookup mountpoint (Accumulator.disksOf disks) =
      Stream.lastOf DiskStats.mountpoint mountpoint disks := by
  induction disks using List.reverseRecOn with
  | nil => rfl
  | append_singleton disks disk ih =>
    rw [Stream.lastOf_snoc, Accumulator.disksOf, List.foldl_append, List.foldl_cons, List.foldl_nil,
      Map.lookup_insert]
    change AList.lookup mountpoint (Accumulator.disksOf disks) = _ at ih
    by_cases h : mountpoint = disk.mountpoint
    · rw [if_pos h, if_pos h.symm]
    · rw [if_neg h, if_neg (Ne.symm h)]
      exact ih

/-- A report adds at most one reading to a mountpoint. -/
theorem readings_snoc (mountpoint : String) (arrivals : List Arrival) (arrival : Arrival) :
    readings mountpoint (arrivals ++ [arrival]) = readings mountpoint arrivals ++
      ((Stream.lastOf DiskStats.mountpoint mountpoint arrival.1.disks).map (·, arrival.2)).toList := by
  rw [readings, List.filterMap_append]
  refine congrArg (readings mountpoint arrivals ++ ·) ?_
  cases h : Stream.lastOf DiskStats.mountpoint mountpoint arrival.1.disks with
  | none => simp only [List.filterMap_cons, h, Option.map_none, List.filterMap_nil, Option.toList_none]
  | some disk =>
    simp only [List.filterMap_cons, h, Option.map_some, List.filterMap_nil, Option.toList_some]

theorem length_readings_le (mountpoint : String) (arrivals : List Arrival) :
    (readings mountpoint arrivals).length ≤ arrivals.length :=
  List.length_filterMap_le _ _

/-! ## All of it -/

/-- An accumulator that has taken in the reports, short of 2^64 of them. -/
structure Holds (a : Accumulator Exact) (arrivals : List Arrival) : Prop where
  cpuUsage : Sums a.cpuUsage (arrivals.map fun r => r.1.cpu.usagePercent)
  load1 : Sums a.load1 (arrivals.map fun r => r.1.cpu.load1)
  load5 : Sums a.load5 (arrivals.map fun r => r.1.cpu.load5)
  load15 : Sums a.load15 (arrivals.map fun r => r.1.cpu.load15)
  memoryUsage : Sums a.memoryUsage
    (arrivals.map fun r => percent r.1.memory.usedBytes r.1.memory.totalBytes)
  swapUsage : Sums a.swapUsage
    (arrivals.map fun r => percent r.1.memory.swapUsedBytes r.1.memory.swapTotalBytes)
  diskReadBPS : Sums a.diskReadBPS
    (arrivals.map fun r => (UInt64.toNat r.fst.diskIO.readBytesPerSecond : ℚ))
  diskWriteBPS : Sums a.diskWriteBPS
    (arrivals.map fun r => (UInt64.toNat r.fst.diskIO.writeBytesPerSecond : ℚ))
  uploadBPS : Sums a.uploadBPS
    (arrivals.map fun r => (r.1.network.uploadBytesPerSecond.toNat : ℚ))
  downloadBPS : Sums a.downloadBPS
    (arrivals.map fun r => (r.1.network.downloadBytesPerSecond.toNat : ℚ))
  entries : ∀ mountpoint, (AList.lookup mountpoint a.disks).isSome = true ↔
    readings mountpoint arrivals ≠ []
  disks : ∀ mountpoint, DiskSums ((AList.lookup mountpoint a.disks).getD newEntry)
    (readings mountpoint arrivals)
  empty : arrivals = [] → a.lastTotalsReceivedAt = none
  totals : ∀ r, Newest (fun r => r.2.ns) arrivals r → a.lastTotalsReceivedAt = some r.2 ∧
    a.totalUpload = r.1.network.totalUploadBytes ∧
    a.totalDownload = r.1.network.totalDownloadBytes

theorem holds_zero : Holds .zero [] where
  cpuUsage := sums_zero
  load1 := sums_zero
  load5 := sums_zero
  load15 := sums_zero
  memoryUsage := sums_zero
  swapUsage := sums_zero
  diskReadBPS := sums_zero
  diskWriteBPS := sums_zero
  uploadBPS := sums_zero
  downloadBPS := sums_zero
  entries mountpoint := iff_of_false (fun h => by cases h) (fun h => h rfl)
  disks mountpoint := diskSums_newEntry
  empty _ := rfl
  totals _ hr := absurd hr.mem List.not_mem_nil

/-- One series takes in a report. -/
theorem Sums.report {n : Numeric Exact} {arrivals : List Arrival} {f : Arrival → ℚ}
    (h : Sums n (arrivals.map f)) (hlength : arrivals.length + 1 < 2 ^ 64) (arrival : Arrival)
    {value : Exact} (hvalue : value = .fin (f arrival)) :
    Sums (n.add value) ((arrivals ++ [arrival]).map f) := by
  rw [hvalue, List.map_append]
  exact h.add (by rwa [List.length_map]) _

/-- `addAt`, with its last step in each of the fields it is about. -/
theorem addAt_eq {F : Type} [Float64 F] (a : Accumulator F) (report : AgentReport F) (t : Time) :
    a.addAt report t =
      { cpuUsage := a.cpuUsage.add report.cpu.usagePercent
        load1 := a.load1.add report.cpu.load1
        load5 := a.load5.add report.cpu.load5
        load15 := a.load15.add report.cpu.load15
        memoryUsage := a.memoryUsage.add
          (usagePercent report.memory.usedBytes report.memory.totalBytes)
        swapUsage := a.swapUsage.add
          (usagePercent report.memory.swapUsedBytes report.memory.swapTotalBytes)
        disks := Accumulator.addDisks a.disks report.disks t true
        diskReadBPS := a.diskReadBPS.add (Float64.ofUInt64 report.diskIO.readBytesPerSecond)
        diskWriteBPS := a.diskWriteBPS.add (Float64.ofUInt64 report.diskIO.writeBytesPerSecond)
        uploadBPS := a.uploadBPS.add (Float64.ofUInt64 report.network.uploadBytesPerSecond)
        downloadBPS := a.downloadBPS.add (Float64.ofUInt64 report.network.downloadBytesPerSecond)
        totalUpload := if supersedes a.lastTotalsReceivedAt t true
          then report.network.totalUploadBytes else a.totalUpload
        totalDownload := if supersedes a.lastTotalsReceivedAt t true
          then report.network.totalDownloadBytes else a.totalDownload
        lastTotalsReceivedAt := if supersedes a.lastTotalsReceivedAt t true
          then some t else a.lastTotalsReceivedAt } := by
  unfold Accumulator.addAt Accumulator.add
  dsimp only
  split
  next => rfl
  next => rfl

/-- One more report: what the accumulator holds is what it has been given. -/
theorem Holds.addAt {a : Accumulator Exact} {arrivals : List Arrival} (h : Holds a arrivals)
    (hlength : arrivals.length + 1 < 2 ^ 64) (arrival : Arrival) :
    Holds (a.addAt (exactReport arrival.1) arrival.2) (arrivals ++ [arrival]) := by
  have hlookup := fun mountpoint => (Accumulator.lookup_addDisks a.disks arrival.1.disks arrival.2
    mountpoint).trans (by rw [lookup_disksOf])
  rw [addAt_eq]
  refine ⟨h.cpuUsage.report hlength arrival rfl, h.load1.report hlength arrival rfl,
    h.load5.report hlength arrival rfl, h.load15.report hlength arrival rfl,
    h.memoryUsage.report hlength arrival (usagePercent_exact _ _),
    h.swapUsage.report hlength arrival (usagePercent_exact _ _),
    h.diskReadBPS.report hlength arrival rfl, h.diskWriteBPS.report hlength arrival rfl,
    h.uploadBPS.report hlength arrival rfl, h.downloadBPS.report hlength arrival rfl,
    fun mountpoint => ?_, fun mountpoint => ?_,
    fun hnil => absurd hnil (List.append_ne_nil_of_right_ne_nil _ (List.cons_ne_nil _ _)),
    fun r hr => ?_⟩
  · show (AList.lookup mountpoint (Accumulator.addDisks a.disks arrival.1.disks arrival.2 true)).isSome
      = true ↔ _
    rw [readings_snoc, hlookup]
    cases Stream.lastOf DiskStats.mountpoint mountpoint arrival.1.disks with
    | none =>
      rw [Option.elim_none, Option.map_none, Option.toList_none, List.append_nil]
      exact h.entries mountpoint
    | some disk =>
      exact iff_of_true rfl (List.append_ne_nil_of_right_ne_nil _ (List.cons_ne_nil _ _))
  · show DiskSums ((AList.lookup mountpoint
      (Accumulator.addDisks a.disks arrival.1.disks arrival.2 true)).getD newEntry) _
    rw [readings_snoc, hlookup]
    cases Stream.lastOf DiskStats.mountpoint mountpoint arrival.1.disks with
    | none =>
      rw [Option.elim_none, Option.map_none, Option.toList_none, List.append_nil]
      exact h.disks mountpoint
    | some disk =>
      have hreadings := length_readings_le mountpoint arrivals
      exact (h.disks mountpoint).add (by omega) disk arrival.2
  · dsimp only
    rcases newest_snoc_cases h.empty (fun r hr => (h.totals r hr).1) hr with ⟨hs, rfl⟩ | ⟨hs, hr⟩
    · rw [if_pos hs, if_pos hs, if_pos hs]
      exact ⟨rfl, rfl, rfl⟩
    · rw [hs]
      exact h.totals r hr

/-- **Taking in reports one by one**, as long as the counters do not wrap. -/
theorem holds_accumulate (arrivals : List Arrival) (hlength : arrivals.length < 2 ^ 64) :
    Holds (accumulate arrivals) arrivals := by
  induction arrivals using List.reverseRecOn with
  | nil => exact holds_zero
  | append_singleton arrivals arrival ih =>
    rw [List.length_append, List.length_singleton] at hlength
    rw [accumulate, List.foldl_append]
    exact (ih (Nat.lt_of_succ_lt hlength)).addAt hlength arrival

/-! ## The record -/

theorem mountpoints_finishDisks (disks : Map String (DiskAccumulator Exact)) :
    (Accumulator.finishDisks disks).map DiskMinute.mountpoint =
      disks.keys.insertionSort (· ≤ ·) := by
  rw [Accumulator.finishDisks, List.map_filterMap]
  refine (List.filterMap_congr fun mountpoint hmem => ?_).trans List.filterMap_some
  obtain ⟨entry, hentry⟩ := Map.mem_keys_iff.mp ((List.mem_insertionSort _).mp hmem)
  rw [hentry]
  rfl

/-- A disk of the record is an entry of the accumulator. -/
theorem finishDisks_entry {disks : Map String (DiskAccumulator Exact)} {disk : DiskMinute Exact}
    (h : disk ∈ Accumulator.finishDisks disks) :
    ∃ entry, AList.lookup disk.mountpoint disks = some entry ∧ disk.usage = entry.usage.pair ∧
      disk.totalBytes = entry.totalBytes ∧ disk.usedBytes = entry.usedBytes := by
  obtain ⟨mountpoint, _, hdisk⟩ := List.mem_filterMap.mp h
  obtain ⟨entry, hentry, rfl⟩ := Option.map_eq_some_iff.mp hdisk
  exact ⟨entry, hentry, rfl, rfl, rfl⟩

/-- The mountpoints of a record stand in strict order. -/
theorem ordered_finishDisks (disks : Map String (DiskAccumulator Exact)) :
    ((Accumulator.finishDisks disks).map DiskMinute.mountpoint).Pairwise (· < ·) := by
  rw [mountpoints_finishDisks]
  have hsorted : (disks.keys.insertionSort (· ≤ ·)).Pairwise (· ≤ ·) :=
    List.pairwise_insertionSort _ _
  have hnodup : (disks.keys.insertionSort (· ≤ ·)).Nodup :=
    (List.perm_insertionSort _ _).nodup_iff.mpr disks.keys_nodup
  exact hsorted.imp₂ (fun _ _ hle hne => lt_of_le_of_ne hle hne) hnodup

/-- A mountpoint has readings exactly if some report names it. -/
theorem mem_readings {mountpoint : String} {arrivals : List Arrival} :
    readings mountpoint arrivals ≠ [] ↔
      ∃ arrival ∈ arrivals, ∃ disk ∈ arrival.1.disks, disk.mountpoint = mountpoint := by
  constructor
  · intro hne
    obtain ⟨reading, hreading⟩ := List.exists_mem_of_ne_nil _ hne
    obtain ⟨arrival, harrival, hlast⟩ := List.mem_filterMap.mp hreading
    obtain ⟨disk, hdisk, _⟩ := Option.map_eq_some_iff.mp hlast
    exact ⟨arrival, harrival, disk, Stream.lastOf_mem hdisk⟩
  · rintro ⟨arrival, harrival, disk, hdisk, hmountpoint⟩
    cases hlast : Stream.lastOf DiskStats.mountpoint mountpoint arrival.1.disks with
    | none => exact absurd hmountpoint (Stream.lastOf_eq_none_iff.mp hlast disk hdisk)
    | some last =>
      have hmem : (last, arrival.2) ∈ readings mountpoint arrivals := by
        refine List.mem_filterMap.mpr ⟨arrival, harrival, ?_⟩
        rw [hlast]
        rfl
      exact List.ne_nil_of_mem hmem

/-- **`Finish` says what the reports said**, for every sequence of reports that the counters can
count. -/
theorem aggregates_finish (arrivals : List Arrival) (hne : arrivals ≠ [])
    (hlength : arrivals.length < 2 ^ 64) (serverID minuteUnix : Int) :
    Aggregates arrivals ((accumulate arrivals).finish serverID minuteUnix).payload := by
  have h := holds_accumulate arrivals hlength
  have hpair : ∀ {n : Numeric Exact} {f : Arrival → ℚ}, Sums n (arrivals.map f) →
      IsPair n.pair (arrivals.map f) := fun hsums =>
    hsums.pair (fun hnil => hne (List.map_eq_nil_iff.mp hnil)) (by rwa [List.length_map])
  refine ⟨hpair h.cpuUsage, hpair h.load1, hpair h.load5, hpair h.load15, hpair h.memoryUsage,
    hpair h.swapUsage, hpair h.diskReadBPS, hpair h.diskWriteBPS, hpair h.uploadBPS,
    hpair h.downloadBPS, ordered_finishDisks _, fun mountpoint => ?_, fun disk hdisk => ?_, ?_⟩
  · show mountpoint ∈ (Accumulator.finishDisks (accumulate arrivals).disks).map _ ↔ _
    rw [mountpoints_finishDisks, List.mem_insertionSort, ← mem_readings, ← h.entries mountpoint,
      ← AList.mem_keys, AList.lookup_isSome]
  · obtain ⟨entry, hentry, husage, htotal, hused⟩ := finishDisks_entry hdisk
    have hdisks := h.disks disk.mountpoint
    have hreadings : readings disk.mountpoint arrivals ≠ [] :=
      (h.entries disk.mountpoint).mp (by rw [hentry]; rfl)
    rw [hentry, Option.getD_some] at hdisks
    refine ⟨?_, ?_⟩
    · rw [husage]
      apply hdisks.usage.pair (fun hnil => hreadings (List.map_eq_nil_iff.mp hnil))
      rw [List.length_map]
      exact Nat.lt_of_le_of_lt (length_readings_le _ _) hlength
    · obtain ⟨reading, hreading⟩ := exists_newest (fun r : DiskStats × Time => r.2.ns) hreadings
      obtain ⟨_, htotal', hused'⟩ := hdisks.newest reading hreading
      exact ⟨reading, hreading, htotal.trans htotal', hused.trans hused'⟩
  · obtain ⟨arrival, harrival⟩ := exists_newest (fun r : Arrival => r.2.ns) hne
    exact ⟨arrival, harrival, (h.totals arrival harrival).2⟩

/-! ## The order of the reports -/

theorem IsPair.unique {p p' : Pair Exact} {values : List ℚ} (h : IsPair p values)
    (h' : IsPair p' values) : p = p' := by
  obtain ⟨m, hm, hgreatest⟩ := h.maximum
  obtain ⟨m', hm', hgreatest'⟩ := h'.maximum
  have haverage : p.average = p'.average := h.average.trans h'.average.symm
  have hmaximum : p.maximum = p'.maximum := by rw [hm, hm', hgreatest.unique hgreatest']
  cases p
  cases p'
  cases haverage
  cases hmaximum
  rfl

/-- Average and maximum do not depend on the order of the values. -/
theorem IsPair.perm {p : Pair Exact} {values values' : List ℚ} (h : IsPair p values)
    (hperm : values.Perm values') : IsPair p values' := by
  obtain ⟨m, hm, hgreatest⟩ := h.maximum
  refine ⟨?_, m, hm, hperm.mem_iff.mp hgreatest.1, fun v hv => hgreatest.2 (hperm.mem_iff.mpr hv)⟩
  rw [h.average, hperm.sum_eq, hperm.length_eq]

/-- What is said of a disk's record determines it. -/
theorem DiskAggregates.unique {arrivals : List Arrival} {disk disk' : DiskMinute Exact}
    (h : DiskAggregates arrivals disk) (h' : DiskAggregates arrivals disk')
    (hmountpoint : disk.mountpoint = disk'.mountpoint) : disk = disk' := by
  have husage := h.usage
  obtain ⟨reading, hreading, htotal, hused⟩ := h.last
  obtain ⟨reading', hreading', htotal', hused'⟩ := h'.last
  rw [hmountpoint] at husage hreading
  have husage := husage.unique h'.usage
  cases hreading.unique hreading'
  cases disk
  cases disk'
  cases hmountpoint
  cases husage
  cases htotal.trans htotal'.symm
  cases hused.trans hused'.symm
  rfl

/-- Of two lists with the same keys, each entry with that of the same key. -/
theorem eq_of_map_eq {A K : Type} {key : A → K} : ∀ {l l' : List A}, l.map key = l'.map key →
    (∀ a ∈ l, ∀ a' ∈ l', key a = key a' → a = a') → l = l'
  | [], [], _, _ => rfl
  | [], _ :: _, h, _ => by cases h
  | _ :: _, [], h, _ => by cases h
  | a :: l, a' :: l', h, heq => by
    obtain ⟨hkey, htail⟩ := List.cons.inj h
    rw [heq a List.mem_cons_self a' List.mem_cons_self hkey,
      eq_of_map_eq htail fun b hb b' hb' =>
        heq b (List.mem_cons_of_mem _ hb) b' (List.mem_cons_of_mem _ hb')]

/-- **The description fixes the record.** -/
theorem Aggregates.unique {arrivals : List Arrival} {p p' : MinutePayload Exact}
    (h : Aggregates arrivals p) (h' : Aggregates arrivals p') : p = p' := by
  have hmountpoints : p.disks.map DiskMinute.mountpoint = p'.disks.map DiskMinute.mountpoint := by
    apply List.Perm.eq_of_pairwise' h.ordered h'.ordered
    rw [List.perm_ext_iff_of_nodup (h.ordered.imp ne_of_lt) (h'.ordered.imp ne_of_lt)]
    exact fun mountpoint => (h.mountpoints mountpoint).trans (h'.mountpoints mountpoint).symm
  have hdisks : p.disks = p'.disks := eq_of_map_eq hmountpoints fun disk hdisk disk' hdisk' heq =>
    (h.disks disk hdisk).unique (h'.disks disk' hdisk') heq
  obtain ⟨arrival, harrival, hupload, hdownload⟩ := h.totals
  obtain ⟨arrival', harrival', hupload', hdownload'⟩ := h'.totals
  cases harrival.unique harrival'
  have hupload := hupload.trans hupload'.symm
  have hdownload := hdownload.trans hdownload'.symm
  have hcpu := h.cpuUsage.unique h'.cpuUsage
  have hload1 := h.load1.unique h'.load1
  have hload5 := h.load5.unique h'.load5
  have hload15 := h.load15.unique h'.load15
  have hmemory := h.memoryUsage.unique h'.memoryUsage
  have hswap := h.swapUsage.unique h'.swapUsage
  have hread := h.diskReadBPS.unique h'.diskReadBPS
  have hwrite := h.diskWriteBPS.unique h'.diskWriteBPS
  have hup := h.uploadBPS.unique h'.uploadBPS
  have hdown := h.downloadBPS.unique h'.downloadBPS
  cases p
  cases p'
  simp only [MinutePayload.mk.injEq]
  exact ⟨hcpu, hload1, hload5, hload15, hmemory, hswap, hdisks, hread, hwrite, hup, hdown, hupload,
    hdownload⟩

theorem readings_perm (mountpoint : String) {arrivals arrivals' : List Arrival}
    (hperm : arrivals.Perm arrivals') :
    (readings mountpoint arrivals).Perm (readings mountpoint arrivals') := hperm.filterMap _

theorem readings_sublist (mountpoint : String) (arrivals : List Arrival) :
    ((readings mountpoint arrivals).map fun r => r.2.ns).Sublist
      (arrivals.map fun r => r.2.ns) := by
  induction arrivals with
  | nil => exact List.Sublist.slnil
  | cons arrival arrivals ih =>
    rw [readings, List.filterMap_cons]
    cases Stream.lastOf DiskStats.mountpoint mountpoint arrival.1.disks with
    | none => exact ih.cons _
    | some disk => exact ih.cons_cons _

/-- **It does not depend on the order** of reports received at different instants. -/
theorem Aggregates.perm {arrivals arrivals' : List Arrival} {p : MinutePayload Exact}
    (h : Aggregates arrivals p) (hperm : arrivals.Perm arrivals')
    (hnodup : (arrivals.map fun r => r.2.ns).Nodup) : Aggregates arrivals' p := by
  refine ⟨h.cpuUsage.perm (hperm.map _), h.load1.perm (hperm.map _), h.load5.perm (hperm.map _),
    h.load15.perm (hperm.map _), h.memoryUsage.perm (hperm.map _), h.swapUsage.perm (hperm.map _),
    h.diskReadBPS.perm (hperm.map _), h.diskWriteBPS.perm (hperm.map _),
    h.uploadBPS.perm (hperm.map _), h.downloadBPS.perm (hperm.map _), h.ordered,
    fun mountpoint => ?_, fun disk hdisk => ?_, ?_⟩
  · rw [h.mountpoints mountpoint, ← mem_readings, ← mem_readings]
    have hreadings := readings_perm mountpoint hperm
    exact not_congr ⟨fun hnil => (hnil ▸ hreadings).nil_eq.symm, fun hnil => (hnil ▸ hreadings).eq_nil⟩
  · obtain ⟨reading, hreading, hlast⟩ := (h.disks disk hdisk).last
    have hreadings := readings_perm disk.mountpoint hperm
    refine ⟨(h.disks disk hdisk).usage.perm (hreadings.map _), reading,
      hreading.perm hreadings ?_, hlast⟩
    exact (readings_sublist _ _).nodup hnodup
  · obtain ⟨arrival, harrival, htotals⟩ := h.totals
    exact ⟨arrival, harrival.perm hperm hnodup, htotals⟩

/-- **The record of a minute**: each series has the average and the maximum of what its reports say,
and each filesystem the sizes of its newest reading. The order in which the reports came does not
matter, as long as no two of them came at one instant. There are fewer than 2^64 reports, which is
where the count wraps. -/
theorem minute_record (arrivals : List Arrival) (hne : arrivals ≠ [])
    (hlength : arrivals.length < 2 ^ 64) (serverID minuteUnix : Int) :
    Aggregates arrivals ((accumulate arrivals).finish serverID minuteUnix).payload ∧
      ∀ arrivals', arrivals.Perm arrivals' → (arrivals.map fun r => r.2.ns).Nodup →
        (accumulate arrivals').finish serverID minuteUnix =
          (accumulate arrivals).finish serverID minuteUnix := by
  have h := aggregates_finish arrivals hne hlength serverID minuteUnix
  refine ⟨h, fun arrivals' hperm hnodup => ?_⟩
  have h' := aggregates_finish arrivals' (fun hnil => hne (hnil ▸ hperm).eq_nil)
    (hperm.length_eq ▸ hlength) serverID minuteUnix
  have hpayload := h'.unique (h.perm hperm hnodup)
  show (⟨_, _, _⟩ : MinuteRecord Exact) = ⟨_, _, _⟩
  rw [MinuteRecord.mk.injEq]
  exact ⟨rfl, rfl, hpayload⟩

/-- A report with one CPU reading. -/
def idle (usagePercent : ℚ) : AgentReport ℚ :=
  { collectedAtUnix := 0, agentVersion := "", hostname := ""
    cpu := { usagePercent, load1 := 0, load5 := 0, load15 := 0 }
    memory := { totalBytes := 0, usedBytes := 0, swapTotalBytes := 0, swapUsedBytes := 0 }
    disks := []
    diskIO := { readBytesPerSecond := 0, writeBytesPerSecond := 0 }
    network := { uploadBytesPerSecond := 0, downloadBytesPerSecond := 0
                 totalUploadBytes := 0, totalDownloadBytes := 0 } }

theorem minute_record_swapped :
    Aggregates [(idle 10, ⟨1⟩), (idle 30, ⟨2⟩)]
        ((accumulate [(idle 10, ⟨1⟩), (idle 30, ⟨2⟩)]).finish 7 100).payload ∧
      (accumulate [(idle 30, ⟨2⟩), (idle 10, ⟨1⟩)]).finish 7 100 =
        (accumulate [(idle 10, ⟨1⟩), (idle 30, ⟨2⟩)]).finish 7 100 := by
  have h := minute_record [(idle 10, ⟨1⟩), (idle 30, ⟨2⟩)] (List.cons_ne_nil _ _) (by decide) 7 100
  exact ⟨h.1, h.2 _ (List.Perm.swap _ _ _) (by decide)⟩

/-! ## The counters wrap -/

theorem count_accumulate (arrivals : List Arrival) :
    (accumulate arrivals).cpuUsage.count = UInt64.ofNat arrivals.length := by
  induction arrivals using List.reverseRecOn with
  | nil => rfl
  | append_singleton arrivals arrival ih =>
    rw [accumulate, List.foldl_append, List.foldl_cons, List.foldl_nil, addAt_eq]
    change (accumulate arrivals).cpuUsage.count + 1 = _
    rw [ih, List.length_append, List.length_singleton, UInt64.ofNat_add]
    rfl

theorem not_aggregates_of_wraps {n : Nat} (hn : n ≠ 0) (hwraps : UInt64.ofNat n = 0) :
    ¬ Aggregates (List.replicate n (idle 1, ⟨0⟩))
      ((accumulate (List.replicate n (idle 1, ⟨0⟩))).finish 7 100).payload := by
  intro h
  have hzero : (accumulate (List.replicate n (idle 1, ⟨0⟩))).cpuUsage.count = 0 := by
    rw [count_accumulate, List.length_replicate, hwraps]
  have hpair : ((accumulate (List.replicate n (idle 1, ⟨0⟩))).finish 7 100).payload.cpuUsage =
      { average := Float64.ofNat 0, maximum := Float64.ofNat 0 } := if_pos hzero
  have haverage := h.cpuUsage.average
  rw [hpair, List.map_replicate, List.sum_replicate, List.length_replicate] at haverage
  have hmean : (n • (1 : ℚ)) / n = 1 := by
    rw [nsmul_one, div_self (Nat.cast_ne_zero.mpr hn)]
  have hfin : (0 : ℚ) = 1 := by
    rw [← hmean]
    exact Exact.fin.inj haverage
  exact zero_ne_one hfin

/-- **2^64 reports of a busy CPU say that it is idle.** -/
theorem wrapped_not_aggregates :
    ¬ Aggregates (List.replicate (2 ^ 64) (idle 1, ⟨0⟩))
      ((accumulate (List.replicate (2 ^ 64) (idle 1, ⟨0⟩))).finish 7 100).payload :=
  not_aggregates_of_wraps (by decide) (by decide)

end TinyProbe.History
