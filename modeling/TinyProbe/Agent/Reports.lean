import Mathlib.Data.List.Forall2
import TinyProbe.Live.Ingest
import TinyProbe.Agent.Source

/-!
# Reports and their checks

The agent reports a disk for each partition its filter lets through (`reportDisks_ok`), and none
is no error to it, as no CPU sample, no counters and no address are. The server refuses a report
without disks. The two agree on every report of sound readings with a partition that the filter
lets through, and on no other (`collect_accepted_iff`).
-/

namespace TinyProbe.Agent

open Protocol Live Servers

section Reports

variable {F : Type}

/-! ## What a report is built from -/

/-- The disk is the partition, measured. -/
structure Measures (diskUsage : String → Except AgentError Usage) (partition : Partition)
    (disk : DiskStats) : Prop where
  mountpoint : disk.mountpoint = partition.mountpoint
  usage : diskUsage partition.mountpoint =
    .ok { total := disk.totalBytes, used := disk.usedBytes }

/-- The partitions the filter lets through. -/
def reported (partitions : List Partition) : List Partition :=
  partitions.filter fun partition => shouldReportFilesystem partition.mountpoint partition.fstype

/-- **A disk for each partition the filter lets through**, by induction on the partitions. -/
theorem reportDisks_ok {diskUsage : String → Except AgentError Usage} {partitions : List Partition}
    {disks : List DiskStats} (h : reportDisks diskUsage partitions = .ok disks) :
    List.Forall₂ (Measures diskUsage) (reported partitions) disks := by
  induction partitions generalizing disks with
  | nil =>
    cases h
    exact .nil
  | cons partition partitions ih =>
    unfold reportDisks at h
    by_cases hreport : shouldReportFilesystem partition.mountpoint partition.fstype = true
    · have hcons : reported (partition :: partitions) = partition :: reported partitions :=
        List.filter_cons_of_pos hreport
      rw [if_pos hreport] at h
      rw [hcons]
      split at h
      next => cases h
      next usage husage =>
        cases hrest : reportDisks diskUsage partitions with
        | error err =>
          rw [hrest] at h
          cases h
        | ok rest =>
          rw [hrest] at h
          cases h
          exact .cons ⟨rfl, husage⟩ (ih hrest)
    · have hcons : reported (partition :: partitions) = reported partitions :=
        List.filter_cons_of_neg hreport
      rw [if_neg hreport] at h
      rw [hcons]
      exact ih h

/-- The partitions reported are those that `shouldReportFilesystem` lets through. -/
theorem mem_reported {partitions : List Partition} {partition : Partition} :
    partition ∈ reported partitions ↔ partition ∈ partitions ∧
      shouldReportFilesystem partition.mountpoint partition.fstype = true := List.mem_filter

/-- Every disk is a partition that was let through. -/
theorem measured_mem {diskUsage : String → Except AgentError Usage} {partitions : List Partition}
    {disks : List DiskStats} (h : List.Forall₂ (Measures diskUsage) partitions disks)
    {disk : DiskStats} (hdisk : disk ∈ disks) :
    ∃ partition ∈ partitions, Measures diskUsage partition disk := by
  induction h with
  | nil => cases hdisk
  | cons hhead _ ih =>
    cases hdisk with
    | head => exact ⟨_, List.mem_cons_self, hhead⟩
    | tail _ hdisk =>
      obtain ⟨partition, hmem, hmeasures⟩ := ih hdisk
      exact ⟨partition, List.mem_cons_of_mem _ hmem, hmeasures⟩

/-- What a report takes from the readings. -/
structure Collected (r : Readings F) (report : AgentReport F) : Prop where
  hostname : r.hostInfo = .ok report.hostname
  usage : ∃ rest, r.cpuPercent = .ok (report.cpu.usagePercent :: rest)
  load : r.loadAvg = .ok (report.cpu.load1, report.cpu.load5, report.cpu.load15)
  memory : r.virtualMemory =
    .ok { total := report.memory.totalBytes, used := report.memory.usedBytes }
  swap : r.swapMemory =
    .ok { total := report.memory.swapTotalBytes, used := report.memory.swapUsedBytes }
  disks : ∃ partitions, r.partitions = .ok partitions ∧
    List.Forall₂ (Measures r.diskUsage) (reported partitions) report.disks
  collectedAt : report.collectedAtUnix = r.now.unix

/-- The hostname is the one that was read. -/
theorem host_ok {isIPv4 : List Char → Bool} {r : Readings F} {hostname : String}
    (h : host isIPv4 r = .ok hostname) : r.hostInfo = .ok hostname := by
  unfold host at h
  split at h
  next => cases h
  next hinfo =>
    split at h
    next => cases h
    next =>
      split at h
      next => cases h
      next =>
        cases hip : primaryIP isIPv4 r with
        | error err =>
          rw [hip] at h
          cases h
        | ok _ =>
          rw [hip] at h
          cases h
          exact hinfo

/-- The usage is the first of the percentages, and the load averages are as read. -/
theorem cpu_ok {r : Readings F} {stats : CPUStats F} (h : cpu r = .ok stats) :
    (∃ rest, r.cpuPercent = .ok (stats.usagePercent :: rest)) ∧
      r.loadAvg = .ok (stats.load1, stats.load5, stats.load15) := by
  unfold cpu at h
  split at h
  next => cases h
  next => cases h
  next hpercent =>
    split at h
    next => cases h
    next hload =>
      cases h
      exact ⟨⟨_, hpercent⟩, hload⟩

theorem memory_ok {r : Readings F} {stats : MemoryStats} (h : memory r = .ok stats) :
    r.virtualMemory = .ok { total := stats.totalBytes, used := stats.usedBytes } ∧
      r.swapMemory = .ok { total := stats.swapTotalBytes, used := stats.swapUsedBytes } := by
  unfold memory at h
  split at h
  next => cases h
  next hvirtual =>
    split at h
    next => cases h
    next hswap =>
      cases h
      exact ⟨hvirtual, hswap⟩

/-- Every reported partition has been measured, and none is left out. -/
theorem persistentDisks_ok {r : Readings F} {disks : List DiskStats}
    (h : persistentDisks r = .ok disks) : ∃ partitions, r.partitions = .ok partitions ∧
      List.Forall₂ (Measures r.diskUsage) (reported partitions) disks := by
  unfold persistentDisks at h
  split at h
  next => cases h
  next partitions hpartitions => exact ⟨partitions, hpartitions, reportDisks_ok h⟩

/-- **A report is built from the readings**, whatever the state of the samplers. -/
theorem collect_ok {c : Conversion} {isIPv4 : List Char → Bool} {agentVersion : String}
    {s s' : GopsutilSource} {r : Readings F} {report : AgentReport F}
    (h : collect c isIPv4 agentVersion s r = (.ok report, s')) : Collected r report := by
  unfold collect at h
  split at h
  next => cases h
  next hostname hhost =>
    split at h
    next => cases h
    next cpu hcpu =>
      split at h
      next => cases h
      next memory hmemory =>
        split at h
        next => cases h
        next disks hdisks =>
          split at h
          next => cases h
          next =>
            split at h
            next => cases h
            next =>
              cases h
              exact
                { hostname := host_ok hhost
                  usage := (cpu_ok hcpu).1
                  load := (cpu_ok hcpu).2
                  memory := (memory_ok hmemory).1
                  swap := (memory_ok hmemory).2
                  disks := persistentDisks_ok hdisks
                  collectedAt := rfl }

/-! ## What the server makes of it -/

variable [FiniteFloat F]

/-- What the library, the kernel and the clock are relied on for. -/
structure Readings.Sound (r : Readings F) : Prop where
  hostname : ∀ hostname, r.hostInfo = .ok hostname → trimSpace hostname ≠ ""
  mountpoints : ∀ partitions, r.partitions = .ok partitions → ∀ partition ∈ partitions,
    trimSpace partition.mountpoint ≠ ""
  /-- A number from 0 to 100. -/
  usage : ∀ percents, r.cpuPercent = .ok percents → ∀ usagePercent ∈ percents,
    FiniteFloat.finite usagePercent = true ∧ Float64.lt usagePercent (Float64.ofNat 0) = false ∧
      Float64.lt (Float64.ofNat 100) usagePercent = false
  load : ∀ load1 load5 load15, r.loadAvg = .ok (load1, load5, load15) →
    FiniteFloat.finite load1 = true ∧ FiniteFloat.finite load5 = true ∧
      FiniteFloat.finite load15 = true
  memory : ∀ usage, r.virtualMemory = .ok usage → usage.used ≤ usage.total
  swap : ∀ usage, r.swapMemory = .ok usage → usage.used ≤ usage.total
  disks : ∀ mountpoint usage, r.diskUsage mountpoint = .ok usage → usage.used ≤ usage.total
  clock : 0 < r.now.unix

/-- **Every check but one** passes on a report of sound readings. -/
theorem Collected.validated {r : Readings F} {report : AgentReport F} (h : Collected r report)
    (hsound : r.Sound) (hdisks : report.disks ≠ []) : Validated report := by
  obtain ⟨rest, husage⟩ := h.usage
  obtain ⟨hfinite, hnonneg, hle⟩ := hsound.usage _ husage _ List.mem_cons_self
  obtain ⟨hload1, hload5, hload15⟩ := hsound.load _ _ _ h.load
  obtain ⟨partitions, hpartitions, hmeasured⟩ := h.disks
  have hpartition : ∀ disk ∈ report.disks, ∃ partition ∈ partitions,
      Measures r.diskUsage partition disk := by
    intro disk hdisk
    obtain ⟨partition, hmem, hmeasures⟩ := measured_mem hmeasured hdisk
    exact ⟨partition, (mem_reported.mp hmem).1, hmeasures⟩
  exact
    { hostname := hsound.hostname _ h.hostname
      disks_ne := hdisks
      collected := h.collectedAt ▸ hsound.clock
      usage := hfinite
      usage_nonneg := hnonneg
      usage_le := hle
      load1 := hload1
      load5 := hload5
      load15 := hload15
      memory := hsound.memory _ h.memory
      swap := hsound.swap _ h.swap
      mountpoints := by
        intro disk hdisk
        obtain ⟨partition, hmem, hmeasures⟩ := hpartition disk hdisk
        rw [hmeasures.mountpoint]
        exact hsound.mountpoints partitions hpartitions partition hmem
      disks := by
        intro disk hdisk
        obtain ⟨partition, _, hmeasures⟩ := hpartition disk hdisk
        exact hsound.disks _ _ hmeasures.usage }

/-- **The server accepts a report** of sound readings exactly if the filter lets a partition
through. A report without disks is refused, and the collector makes one when no filesystem is to be
reported; all other checks of the server hold of what it collects. -/
theorem collect_accepted_iff {c : Conversion} {isIPv4 : List Char → Bool} {agentVersion : String}
    {s s' : GopsutilSource} {r : Readings F} {report : AgentReport F} (hsound : r.Sound)
    (h : collect c isIPv4 agentVersion s r = (.ok report, s')) :
    validateReport report = .ok () ↔ ∃ partitions, r.partitions = .ok partitions ∧
      ∃ partition ∈ partitions,
        shouldReportFilesystem partition.mountpoint partition.fstype = true := by
  have hcollected := collect_ok h
  obtain ⟨partitions, hpartitions, hmeasured⟩ := hcollected.disks
  rw [validateReport_ok_iff]
  constructor
  · intro hvalid
    obtain ⟨disk, hdisk⟩ := List.exists_mem_of_ne_nil _ hvalid.disks_ne
    obtain ⟨partition, hmem, _⟩ := measured_mem hmeasured hdisk
    exact ⟨partitions, hpartitions, partition, mem_reported.mp hmem⟩
  · rintro ⟨partitions', hpartitions', partition, hmem, hreport⟩
    cases hpartitions.symm.trans hpartitions'
    refine hcollected.validated hsound fun hnil => ?_
    rw [hnil] at hmeasured
    have hnone : reported partitions = [] := List.forall₂_nil_right_iff.mp hmeasured
    exact List.not_mem_nil (hnone ▸ mem_reported.mpr ⟨hmem, hreport⟩)

end Reports

/-- A host with one partition. -/
def oneMount (fstype : String) : Readings Exact :=
  { hostInfo := .ok "host"
    cpuInfo := .ok ()
    cpuCounts := .ok ()
    hostRoute := .ok "Iface\neth0 00000000 0 3 0 0 9 00000000\n".toList
    netInterfaces := .ok [{ name := "eth0".toList, addrs := ["10.0.0.2/24".toList] }]
    cpuPercent := .ok [.fin 5]
    loadAvg := .ok (.fin 1, .fin 1, .fin 1)
    virtualMemory := .ok { total := 1000, used := 400 }
    swapMemory := .ok { total := 0, used := 0 }
    partitions := .ok [{ mountpoint := "/", fstype }]
    diskUsage := fun _ => .ok { total := 1000, used := 500 }
    disk := { counters := .ok [], physical := fun _ => false, now := .ofUnix 100 }
    network :=
      { route := .ok "Iface\neth0 00000000 0 3 0 0 9 00000000\n".toList
        counters := .ok [{ name := "eth0".toList, bytesSent := 1, bytesRecv := 2 }]
        now := .ofUnix 100 }
    now := .ofUnix 100 }

theorem oneMount_sound (fstype : String) : (oneMount fstype).Sound where
  hostname _ h := by
    cases h
    decide
  mountpoints _ h partition hmem := by
    cases h
    rw [List.mem_singleton.mp hmem]
    exact (by decide : trimSpace "/" ≠ "")
  usage _ h usagePercent hmem := by
    cases h
    rw [List.mem_singleton.mp hmem]
    decide
  load _ _ _ h := by
    cases h
    decide
  memory _ h := by
    cases h
    decide
  swap _ h := by
    cases h
    decide
  disks _ _ h := by
    cases h
    decide
  clock := (by decide : 0 < (Time.ofUnix 100).unix)

theorem ext4_accepted :
    ∃ report s', collect lowBits (fun _ => true) "v1" .new (oneMount "ext4") = (.ok report, s') ∧
      validateReport report = .ok () := by
  obtain ⟨report, s', hcall⟩ : ∃ report s',
      collect lowBits (fun _ => true) "v1" .new (oneMount "ext4") = (.ok report, s') := ⟨_, _, rfl⟩
  exact ⟨report, s', hcall, (collect_accepted_iff (oneMount_sound "ext4") hcall).mpr
    ⟨_, rfl, _, List.mem_cons_self, by decide⟩⟩

/-- A report without disks is built, and refused. -/
theorem overlay_refused : (oneMount "overlay").Sound ∧
    ∃ report s', collect lowBits (fun _ => true) "v1" .new (oneMount "overlay") =
        (.ok report, s') ∧ report.disks = [] ∧ validateReport report = .error .invalidReport :=
  ⟨oneMount_sound "overlay", _, _, rfl, rfl, by decide⟩

end TinyProbe.Agent
