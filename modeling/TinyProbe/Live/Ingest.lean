import TinyProbe.Base.Finite
import TinyProbe.Servers.Registry

/-!
# The checks of a report

`Handler.Ingest` hands a report on only if `validateReport` accepts it. What the checks leave of a
report is `Validated`: used space never exceeds a capacity, and the numbers are finite. A capacity of
zero passes, and so does any finite load average.
-/

namespace TinyProbe.Live

open Protocol Servers

/-- `errInvalidReport`. -/
inductive ReportError where
  | invalidReport
deriving DecidableEq, Repr

variable {F : Type} [FiniteFloat F]

/-- `validateReport`. -/
def validateReport (report : AgentReport F) : Except ReportError Unit :=
  if trimSpace report.hostname = "" ∨ report.disks.length = 0 ∨ report.collectedAtUnix ≤ 0 then
    .error .invalidReport
  else if FiniteFloat.finite report.cpu.usagePercent = false ∨
      Float64.lt report.cpu.usagePercent (Float64.ofNat 0) = true ∨
        Float64.lt (Float64.ofNat 100) report.cpu.usagePercent = true ∨
          FiniteFloat.finite report.cpu.load1 = false ∨
            FiniteFloat.finite report.cpu.load5 = false ∨
              FiniteFloat.finite report.cpu.load15 = false then
    .error .invalidReport
  else if report.memory.totalBytes < report.memory.usedBytes ∨
      report.memory.swapTotalBytes < report.memory.swapUsedBytes then
    .error .invalidReport
  else if ∃ disk ∈ report.disks,
      trimSpace disk.mountpoint = "" ∨ disk.totalBytes < disk.usedBytes then
    .error .invalidReport
  else .ok ()

/-- What the checks promise of the numbers of a report. -/
structure Validated (report : AgentReport F) : Prop where
  hostname : trimSpace report.hostname ≠ ""
  disks_ne : report.disks ≠ []
  collected : 0 < report.collectedAtUnix
  usage : FiniteFloat.finite report.cpu.usagePercent = true
  usage_nonneg : Float64.lt report.cpu.usagePercent (Float64.ofNat 0) = false
  usage_le : Float64.lt (Float64.ofNat 100) report.cpu.usagePercent = false
  load1 : FiniteFloat.finite report.cpu.load1 = true
  load5 : FiniteFloat.finite report.cpu.load5 = true
  load15 : FiniteFloat.finite report.cpu.load15 = true
  memory : report.memory.usedBytes ≤ report.memory.totalBytes
  swap : report.memory.swapUsedBytes ≤ report.memory.swapTotalBytes
  mountpoints : ∀ disk ∈ report.disks, trimSpace disk.mountpoint ≠ ""
  disks : ∀ disk ∈ report.disks, disk.usedBytes ≤ disk.totalBytes

/-- **The reports that pass are those that satisfy every check.** -/
theorem validateReport_ok_iff {report : AgentReport F} :
    validateReport report = .ok () ↔ Validated report := by
  unfold validateReport
  constructor
  · intro h
    split at h
    next => cases h
    next hhead =>
      split at h
      next => cases h
      next hcpu =>
        split at h
        next => cases h
        next hmemory =>
          split at h
          next => cases h
          next hdisks =>
            simp only [not_or, Bool.not_eq_false, Bool.not_eq_true] at hhead hcpu
            simp only [not_or, UInt64.not_lt] at hmemory
            push Not at hdisks
            exact
              { hostname := hhead.1
                disks_ne := fun heq => hhead.2.1 (by rw [heq]; rfl)
                collected := Int.not_le.mp hhead.2.2
                usage := hcpu.1
                usage_nonneg := hcpu.2.1
                usage_le := hcpu.2.2.1
                load1 := hcpu.2.2.2.1
                load5 := hcpu.2.2.2.2.1
                load15 := hcpu.2.2.2.2.2
                memory := hmemory.1
                swap := hmemory.2
                mountpoints := fun disk hdisk => (hdisks disk hdisk).1
                disks := fun disk hdisk => UInt64.not_lt.mp (hdisks disk hdisk).2 }
  · intro h
    rw [if_neg, if_neg, if_neg, if_neg]
    · rintro ⟨disk, hdisk, hmount | hlt⟩
      · exact h.mountpoints disk hdisk hmount
      · exact UInt64.not_lt.mpr (h.disks disk hdisk) hlt
    · rintro (hlt | hlt)
      · exact UInt64.not_lt.mpr h.memory hlt
      · exact UInt64.not_lt.mpr h.swap hlt
    · simp only [h.usage, h.usage_nonneg, h.usage_le, h.load1, h.load5, h.load15,
        Bool.true_eq_false, Bool.false_eq_true, or_self, not_false_eq_true]
    · rintro (hhost | hdisks | hcollected)
      · exact h.hostname hhost
      · exact h.disks_ne (List.length_eq_zero_iff.mp hdisks)
      · exact Int.not_le.mpr h.collected hcollected

end TinyProbe.Live
