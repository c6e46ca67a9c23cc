import TinyProbe.Alerting.Model

/-!
# Metric values

`MetricValue` reads a metric off a snapshot and `breached` compares it with a rule. Free space is a
uint64 subtraction, which wraps.
-/

namespace TinyProbe.Alerting

open Live Protocol

variable {F : Type} [Float64 F]

/-- `float64(used) / float64(total) * 100`, as both usage metrics compute it. -/
def usagePercent (used total : UInt64) : F :=
  Float64.mul (Float64.div (Float64.ofUInt64 used) (Float64.ofUInt64 total)) (Float64.ofNat 100)

/-- The loop of the `disk_usage` case. -/
def maxDiskUsage (disks : List DiskStats) : F :=
  disks.foldl
    (fun value disk =>
      if disk.totalBytes = 0 then value
      else Float64.max value (usagePercent disk.usedBytes disk.totalBytes))
    (Float64.ofNat 0)

/-- The loop of the `disk_free_bytes` case. -/
def minDiskFree (disks : List DiskStats) : F :=
  disks.foldl
    (fun value disk => Float64.min value (Float64.ofUInt64 (disk.totalBytes - disk.usedBytes)))
    Float64.inf

/-- `MetricValue`. -/
def metricValue (snapshot : Snapshot F) (metric : Metric) : F :=
  match metric with
  | .offline => if snapshot.online then Float64.ofNat 0 else Float64.ofNat 1
  | .cpuUsage => snapshot.report.cpu.usagePercent
  | .memoryUsage =>
    if snapshot.report.memory.totalBytes = 0 then Float64.ofNat 0
    else usagePercent snapshot.report.memory.usedBytes snapshot.report.memory.totalBytes
  | .diskUsage => maxDiskUsage snapshot.report.disks
  | .diskFreeBytes =>
    let value := minDiskFree snapshot.report.disks
    if Float64.isInf value then Float64.ofNat 0 else value
  | .other _ => Float64.ofNat 0

/-- `breached`. -/
def breached (value : F) (rule : Rule F) : Bool :=
  match rule.operator with
  | .greaterThan => Float64.lt rule.threshold value
  | .lessThan => Float64.lt value rule.threshold
  | .other _ => false

end TinyProbe.Alerting
