import TinyProbe.Lib.Map
import TinyProbe.Live.Snapshot
import Mathlib.Data.List.Sort
import Mathlib.Data.String.Basic

/-!
# Minute accumulators

What a bucket of the aggregator sums up: count, sum and maximum of every numeric series, the usage
of each mountpoint, and the totals of the report received last. `Finish` turns it into the record
that is stored.

A Go map has no order. `Accumulator.add` goes through the report's mountpoints in the order of the
model's map; each iteration touches the entry of its own mountpoint only. `sort.Strings` compares
bytes, which for UTF-8 is the order of code points, that of `String`.
-/

namespace TinyProbe.History

open Protocol

/-- `Pair`. -/
structure Pair (F : Type) where
  average : F
  maximum : F
deriving DecidableEq

/-- `DiskMinute`. -/
structure DiskMinute (F : Type) where
  mountpoint : String
  usage : Pair F
  totalBytes : UInt64
  usedBytes : UInt64
deriving DecidableEq

/-- `MinutePayload`. -/
structure MinutePayload (F : Type) where
  cpuUsage : Pair F
  load1 : Pair F
  load5 : Pair F
  load15 : Pair F
  memoryUsage : Pair F
  swapUsage : Pair F
  disks : List (DiskMinute F)
  diskReadBPS : Pair F
  diskWriteBPS : Pair F
  uploadBPS : Pair F
  downloadBPS : Pair F
  totalUpload : UInt64
  totalDownload : UInt64
deriving DecidableEq

/-- `MinuteRecord`. -/
structure MinuteRecord (F : Type) where
  serverID : Int
  minuteUnix : Int
  payload : MinutePayload F
deriving DecidableEq

/-- `numeric`. -/
structure Numeric (F : Type) where
  count : UInt64
  sum : F
  max : F

/-- `diskAccumulator`; `lastReceivedAt` is `none` as long as `hasLastReceivedAt` is false. -/
structure DiskAccumulator (F : Type) where
  usage : Numeric F
  totalBytes : UInt64
  usedBytes : UInt64
  lastReceivedAt : Option Time

/-- `Accumulator`; `lastTotalsReceivedAt` is `none` as long as `hasLastTotalsReceivedAt` is
false. -/
structure Accumulator (F : Type) where
  cpuUsage : Numeric F
  load1 : Numeric F
  load5 : Numeric F
  load15 : Numeric F
  memoryUsage : Numeric F
  swapUsage : Numeric F
  disks : Map String (DiskAccumulator F)
  diskReadBPS : Numeric F
  diskWriteBPS : Numeric F
  uploadBPS : Numeric F
  downloadBPS : Numeric F
  totalUpload : UInt64
  totalDownload : UInt64
  lastTotalsReceivedAt : Option Time

variable {F : Type} [Float64 F]

namespace Numeric

/-- The zero value. -/
def zero : Numeric F := { count := 0, sum := Float64.ofNat 0, max := Float64.ofNat 0 }

def add (n : Numeric F) (value : F) : Numeric F :=
  let count := n.count + 1
  { count, sum := Float64.add n.sum value
    max := if count = 1 ∨ Float64.lt n.max value then value else n.max }

def pair (n : Numeric F) : Pair F :=
  if n.count = 0 then { average := Float64.ofNat 0, maximum := Float64.ofNat 0 }
  else { average := Float64.div n.sum (Float64.ofUInt64 n.count), maximum := n.max }

end Numeric

/-- `usagePercent`. -/
def usagePercent (used total : UInt64) : F :=
  if total = 0 then Float64.ofNat 0
  else
    Float64.mul (Float64.div (Float64.ofUInt64 used) (Float64.ofUInt64 total)) (Float64.ofNat 100)

/-- A report supersedes the last values unless it is ordered and was received before them. -/
def supersedes (last : Option Time) (receivedAt : Time) (ordered : Bool) : Bool :=
  !ordered || last.all fun last => !receivedAt.before last

/-- The loop body of `add` over the report's mountpoints. -/
def DiskAccumulator.add (entry : DiskAccumulator F) (disk : DiskStats) (receivedAt : Time)
    (ordered : Bool) : DiskAccumulator F :=
  let entry := { entry with usage := entry.usage.add (usagePercent disk.usedBytes disk.totalBytes) }
  if supersedes entry.lastReceivedAt receivedAt ordered then
    { entry with
      totalBytes := disk.totalBytes, usedBytes := disk.usedBytes
      lastReceivedAt := if ordered then some receivedAt else none }
  else entry

namespace Accumulator

/-- The zero value. -/
def zero : Accumulator F :=
  { cpuUsage := .zero, load1 := .zero, load5 := .zero, load15 := .zero, memoryUsage := .zero
    swapUsage := .zero, disks := ∅, diskReadBPS := .zero, diskWriteBPS := .zero
    uploadBPS := .zero, downloadBPS := .zero, totalUpload := 0, totalDownload := 0
    lastTotalsReceivedAt := none }

/-- The disks of a report by mountpoint; a later entry replaces an earlier one. -/
def disksOf (disks : List DiskStats) : Map String DiskStats :=
  disks.foldl (fun disks disk => disks.insert disk.mountpoint disk) ∅

/-- The loop of `add` over the report's mountpoints. -/
def addDisks (disks : Map String (DiskAccumulator F)) (report : List DiskStats) (receivedAt : Time)
    (ordered : Bool) : Map String (DiskAccumulator F) :=
  (disksOf report).entries.foldl
    (fun disks disk =>
      let entry := (AList.lookup disk.1 disks).getD
        { usage := .zero, totalBytes := 0, usedBytes := 0, lastReceivedAt := none }
      disks.insert disk.1 (entry.add disk.2 receivedAt ordered))
    disks

def add (a : Accumulator F) (report : AgentReport F) (receivedAt : Time) (ordered : Bool) :
    Accumulator F :=
  let a :=
    { a with
      cpuUsage := a.cpuUsage.add report.cpu.usagePercent
      load1 := a.load1.add report.cpu.load1
      load5 := a.load5.add report.cpu.load5
      load15 := a.load15.add report.cpu.load15
      memoryUsage := a.memoryUsage.add
        (usagePercent report.memory.usedBytes report.memory.totalBytes)
      swapUsage := a.swapUsage.add
        (usagePercent report.memory.swapUsedBytes report.memory.swapTotalBytes)
      disks := addDisks a.disks report.disks receivedAt ordered
      diskReadBPS := a.diskReadBPS.add (Float64.ofUInt64 report.diskIO.readBytesPerSecond)
      diskWriteBPS := a.diskWriteBPS.add (Float64.ofUInt64 report.diskIO.writeBytesPerSecond)
      uploadBPS := a.uploadBPS.add (Float64.ofUInt64 report.network.uploadBytesPerSecond)
      downloadBPS := a.downloadBPS.add (Float64.ofUInt64 report.network.downloadBytesPerSecond) }
  if supersedes a.lastTotalsReceivedAt receivedAt ordered then
    { a with
      totalUpload := report.network.totalUploadBytes
      totalDownload := report.network.totalDownloadBytes
      lastTotalsReceivedAt := if ordered then some receivedAt else none }
  else a

/-- `addAt`. -/
def addAt (a : Accumulator F) (report : AgentReport F) (receivedAt : Time) : Accumulator F :=
  a.add report receivedAt true

/-- The disks of `Finish`, sorted by mountpoint. -/
def finishDisks (disks : Map String (DiskAccumulator F)) : List (DiskMinute F) :=
  (disks.keys.insertionSort (· ≤ ·)).filterMap fun mountpoint =>
    (AList.lookup mountpoint disks).map fun entry =>
      { mountpoint, usage := entry.usage.pair, totalBytes := entry.totalBytes
        usedBytes := entry.usedBytes }

/-- `Finish`. -/
def finish (a : Accumulator F) (serverID minuteUnix : Int) : MinuteRecord F :=
  { serverID, minuteUnix
    payload :=
      { cpuUsage := a.cpuUsage.pair, load1 := a.load1.pair, load5 := a.load5.pair
        load15 := a.load15.pair, memoryUsage := a.memoryUsage.pair, swapUsage := a.swapUsage.pair
        disks := finishDisks a.disks, diskReadBPS := a.diskReadBPS.pair
        diskWriteBPS := a.diskWriteBPS.pair, uploadBPS := a.uploadBPS.pair
        downloadBPS := a.downloadBPS.pair, totalUpload := a.totalUpload
        totalDownload := a.totalDownload } }

end Accumulator

/-! ## Last values -/

namespace Accumulator

/-- The last values are those of a report. -/
structure LastValues (a : Accumulator F) (report : AgentReport F) : Prop where
  upload : a.totalUpload = report.network.totalUploadBytes
  download : a.totalDownload = report.network.totalDownloadBytes
  disks : ∀ mountpoint disk, AList.lookup mountpoint (disksOf report.disks) = some disk →
    ∃ entry, AList.lookup mountpoint a.disks = some entry ∧
      entry.totalBytes = disk.totalBytes ∧ entry.usedBytes = disk.usedBytes

/-- No last value is younger than `t`. -/
structure NotAfter (t : Time) (a : Accumulator F) : Prop where
  totals : ∀ last, a.lastTotalsReceivedAt = some last → last.ns ≤ t.ns
  disks : ∀ mountpoint entry, AList.lookup mountpoint a.disks = some entry →
    ∀ last, entry.lastReceivedAt = some last → last.ns ≤ t.ns

omit [Float64 F] in
/-- A report that is not older than the last values supersedes them. -/
theorem supersedes_of_le {last : Option Time} {t : Time}
    (h : ∀ u, last = some u → u.ns ≤ t.ns) : supersedes last t true = true := by
  cases last with
  | none => rfl
  | some u =>
    have := h u rfl
    simp only [supersedes, Bool.not_true, Bool.false_or, Option.all_some, Bool.not_eq_true',
      Bool.eq_false_iff, ne_eq, Time.before_iff]
    omega

/-- The disks after `add`: each mountpoint of the report has had its own iteration. -/
theorem lookup_addDisks (disks : Map String (DiskAccumulator F)) (report : List DiskStats) (t : Time)
    (mountpoint : String) :
    AList.lookup mountpoint (addDisks disks report t true) =
      (AList.lookup mountpoint (disksOf report)).elim (AList.lookup mountpoint disks) fun disk =>
        some (((AList.lookup mountpoint disks).getD
          { usage := .zero, totalBytes := 0, usedBytes := 0, lastReceivedAt := none }).add disk t
            true) :=
  Map.lookup_foldl_update
    (fun (entry : Option (DiskAccumulator F)) (disk : DiskStats) => (entry.getD
      { usage := .zero, totalBytes := 0, usedBytes := 0, lastReceivedAt := none }).add disk t true)
    mountpoint _ disks (disksOf report).nodupKeys

theorem notAfter_zero (t : Time) : NotAfter t (zero : Accumulator F) where
  totals last h := by cases h
  disks mountpoint entry h := by cases h

theorem NotAfter.addAt {t u : Time} {a : Accumulator F} (h : NotAfter t a) (hu : u.ns ≤ t.ns)
    (report : AgentReport F) : NotAfter t (a.addAt report u) := by
  have hentry : ∀ (entry : DiskAccumulator F) disk,
      (∀ last, entry.lastReceivedAt = some last → last.ns ≤ t.ns) →
        ∀ last, (entry.add disk u true).lastReceivedAt = some last → last.ns ≤ t.ns := by
    intro entry disk hold last hlast
    unfold DiskAccumulator.add at hlast
    dsimp only at hlast
    split at hlast
    next => cases hlast; exact hu
    next => exact hold last hlast
  refine ⟨?_, ?_⟩
  · intro last hlast
    unfold Accumulator.addAt Accumulator.add at hlast
    dsimp only at hlast
    split at hlast
    next => cases hlast; exact hu
    next => exact h.totals last hlast
  · intro mountpoint entry hget
    have hdisks : (a.addAt report u).disks = addDisks a.disks report.disks u true := by
      unfold Accumulator.addAt Accumulator.add
      dsimp only
      split <;> rfl
    rw [hdisks, lookup_addDisks] at hget
    cases hdisk : AList.lookup mountpoint (disksOf report.disks) with
    | none =>
      rw [hdisk] at hget
      exact h.disks mountpoint entry hget
    | some disk =>
      rw [hdisk] at hget
      cases hget
      apply hentry _ disk
      cases hold : AList.lookup mountpoint a.disks with
      | none => intro last hlast; cases hlast
      | some old => exact h.disks mountpoint old hold

/-- **A report that is not older than any other leaves its own last values.** -/
theorem lastValues_addAt {t : Time} {a : Accumulator F} (h : NotAfter t a)
    (report : AgentReport F) : LastValues (a.addAt report t) report := by
  have hadd : a.addAt report t =
      { a.addAt report t with
        disks := addDisks a.disks report.disks t true
        totalUpload := report.network.totalUploadBytes
        totalDownload := report.network.totalDownloadBytes } := by
    unfold addAt add
    dsimp only
    rw [if_pos (supersedes_of_le h.totals)]
  rw [hadd]
  refine ⟨rfl, rfl, ?_⟩
  intro mountpoint disk hdisk
  refine ⟨_, (lookup_addDisks _ _ _ _).trans (by rw [hdisk]; rfl), ?_⟩
  unfold DiskAccumulator.add
  dsimp only
  rw [if_pos]
  · exact ⟨rfl, rfl⟩
  · apply supersedes_of_le
    cases hold : AList.lookup mountpoint a.disks with
    | none => intro last hlast; cases hlast
    | some old => exact h.disks mountpoint old hold

end Accumulator

end TinyProbe.History
