import TinyProbe.Agent.Routes
import TinyProbe.Live.Snapshot

/-!
# What the agent measures

`GopsutilSource` and `Collector.Collect`. What the library, the kernel and the clock return at a
call is an argument. Fields that no check and no rate reads are left out of the readings, as they
are of the report; the name of the interface is returned beside its statistics.

The sampler divides a number of bytes by a number of seconds in float64 and converts the quotient
to uint64. The division is taken to be exact here, so the conversion drops its fraction; what it
makes of a quotient from 2^64 on is up to the implementation (`Conversion`).
-/

namespace TinyProbe.Agent

open Protocol

/-- The conversion of a nonnegative float64 to uint64. -/
structure Conversion where
  convert : Nat → UInt64
  convert_toNat : ∀ q < 2 ^ 64, (convert q).toNat = q

/-- A conversion that keeps the low bits. -/
def lowBits : Conversion where
  convert := UInt64.ofNat
  convert_toNat _ hq := UInt64.toNat_ofNat_of_lt' hq

/-- An error. -/
inductive AgentError where
  /-- An error of the library, or one without arguments. -/
  | text (text : String)
  /-- `default route interface %q` and a text. -/
  | route (interfaceName : List Char) (text : String)
  /-- A text, a colon and the error that is wrapped. -/
  | wrap (text : String) (err : AgentError)
deriving DecidableEq

/-! ## Rates -/

structure RateState where
  initialized : Bool
  at_ : Time
  first : UInt64
  second : UInt64
deriving DecidableEq

/-- `rateState{}`. -/
def RateState.zero : RateState := { initialized := false, at_ := .zero, first := 0, second := 0 }

/-- A number of nanoseconds that is not negative. -/
def nanoseconds (elapsed : Duration) : Nat := elapsed.toInt.toNat

def bytesPerSecond (c : Conversion) (previous current : UInt64) (elapsed : Duration) : UInt64 :=
  if current < previous ∨ elapsed ≤ 0 then 0
  else c.convert ((current - previous).toNat * 1000000000 / nanoseconds elapsed)

/-- `rateState.sample`. -/
def RateState.sample (c : Conversion) (s : RateState) (now : Time) (first second : UInt64) :
    (UInt64 × UInt64) × RateState :=
  let s' : RateState := { initialized := true, at_ := now, first, second }
  if s.initialized = false then ((0, 0), s')
  else
    let elapsed := now.sub s.at_
    if elapsed ≤ 0 then ((0, 0), s')
    else ((bytesPerSecond c s.first first elapsed, bytesPerSecond c s.second second elapsed), s')

structure GopsutilSource where
  diskRate : RateState
  networkInterface : List Char
  networkRate : RateState
deriving DecidableEq

/-- `newGopsutilSource`. -/
def GopsutilSource.new : GopsutilSource :=
  { diskRate := .zero, networkInterface := [], networkRate := .zero }

/-! ## Disk I/O -/

/-- `disk.IOCountersStat`. -/
structure DiskCounters where
  readBytes : UInt64
  writeBytes : UInt64
deriving DecidableEq

/-- The body of the loop of `aggregatePhysicalDiskIO`. -/
def addDevice (physical : String → Bool) (sums : UInt64 × UInt64) (entry : String × DiskCounters) :
    UInt64 × UInt64 :=
  if physical entry.1 then (sums.1 + entry.2.readBytes, sums.2 + entry.2.writeBytes) else sums

/-- The sums are taken in uint64, over the entries of a map, which come in any order. -/
def aggregatePhysicalDiskIO (counters : List (String × DiskCounters)) (physical : String → Bool) :
    UInt64 × UInt64 := counters.foldl (addDevice physical) (0, 0)

/-- What a call of `DiskIO` reads. -/
structure DiskReading where
  counters : Except AgentError (List (String × DiskCounters))
  physical : String → Bool
  now : Time

/-- `GopsutilSource.DiskIO`. -/
def GopsutilSource.diskIo (c : Conversion) (s : GopsutilSource) (r : DiskReading) :
    Except AgentError DiskIOStats × GopsutilSource :=
  match r.counters with
  | .error err => (.error (.wrap "read disk io" err), s)
  | .ok counters =>
    let sums := aggregatePhysicalDiskIO counters r.physical
    let (rates, diskRate) := s.diskRate.sample c r.now sums.1 sums.2
    (.ok { readBytesPerSecond := rates.1, writeBytesPerSecond := rates.2 }, { s with diskRate })

/-! ## The network -/

/-- `gnet.IOCountersStat`. -/
structure NetworkCounters where
  name : List Char
  bytesSent : UInt64
  bytesRecv : UInt64
deriving DecidableEq

/-- What a call of `DefaultRouteNetwork` reads. -/
structure NetworkReading where
  route : Except AgentError (List Char)
  counters : Except AgentError (List NetworkCounters)
  now : Time

def defaultRouteName (route : Except AgentError (List Char)) : Except AgentError (List Char) :=
  match route with
  | .error err => .error (.wrap "open route table" err)
  | .ok text => (defaultRouteInterface text).mapError .text

/-- The sample of the interface; the state starts anew if it is not the one of the last sample. -/
def GopsutilSource.sampleNetwork (c : Conversion) (s : GopsutilSource) (now : Time)
    (counter : NetworkCounters) : NetworkStats × GopsutilSource :=
  let s :=
    if s.networkInterface ≠ counter.name then
      { s with networkInterface := counter.name, networkRate := .zero }
    else s
  let (rates, networkRate) := s.networkRate.sample c now counter.bytesSent counter.bytesRecv
  ({ uploadBytesPerSecond := rates.1, downloadBytesPerSecond := rates.2
     totalUploadBytes := counter.bytesSent, totalDownloadBytes := counter.bytesRecv },
    { s with networkRate })

def GopsutilSource.defaultRouteNetwork (c : Conversion) (s : GopsutilSource) (r : NetworkReading) :
    Except AgentError (List Char × NetworkStats) × GopsutilSource :=
  match defaultRouteName r.route with
  | .error err => (.error err, s)
  | .ok interfaceName =>
    match r.counters with
    | .error err => (.error (.wrap "read network io" err), s)
    | .ok counters =>
      match counters.find? fun counter => counter.name == interfaceName with
      | none => (.error (.route interfaceName "has no counters"), s)
      | some counter =>
        let (stats, s) := s.sampleNetwork c r.now counter
        (.ok (interfaceName, stats), s)

/-! ## Filesystems -/

def temporaryFilesystems : List String :=
  ["tmpfs", "devtmpfs", "squashfs", "overlay", "proc", "sysfs", "cgroup", "cgroup2", "autofs", "bpf",
    "binfmt_misc", "configfs", "debugfs", "devpts", "fusectl", "hugetlbfs", "mqueue", "nsfs", "pstore",
    "ramfs", "securityfs", "tracefs"]

def isPersistentFilesystem (filesystem : String) : Bool :=
  !temporaryFilesystems.contains (String.ofList (filesystem.toList.map toLower))

def isBootMount (mountpoint : String) : Bool :=
  mountpoint == "/boot" || "/boot/".toList.isPrefixOf mountpoint.toList

def shouldReportFilesystem (mountpoint filesystem : String) : Bool :=
  isPersistentFilesystem filesystem && !isBootMount mountpoint

/-- `disk.PartitionStat`. -/
structure Partition where
  mountpoint : String
  fstype : String
deriving DecidableEq

/-- A capacity, and what is used of it. -/
structure Usage where
  total : UInt64
  used : UInt64
deriving DecidableEq

/-- The loop of `PersistentDisks`. -/
def reportDisks (diskUsage : String → Except AgentError Usage) :
    List Partition → Except AgentError (List DiskStats)
  | [] => .ok []
  | partition :: partitions =>
    if shouldReportFilesystem partition.mountpoint partition.fstype then
      match diskUsage partition.mountpoint with
      | .error err => .error (.wrap ("read disk usage for " ++ partition.mountpoint) err)
      | .ok usage =>
        (reportDisks diskUsage partitions).map fun disks =>
          { mountpoint := partition.mountpoint, totalBytes := usage.total, usedBytes := usage.used } ::
            disks
    else reportDisks diskUsage partitions

/-! ## The report -/

/-- An entry of `gnet.InterfaceStatList`. -/
structure Interface where
  name : List Char
  addrs : List (List Char)

/-- What a call of `Collect` reads, in the order of the calls. -/
structure Readings (F : Type) where
  /-- The host name. -/
  hostInfo : Except AgentError String
  cpuInfo : Except AgentError Unit
  cpuCounts : Except AgentError Unit
  hostRoute : Except AgentError (List Char)
  netInterfaces : Except AgentError (List Interface)
  cpuPercent : Except AgentError (List F)
  /-- `Load1`, `Load5` and `Load15`. -/
  loadAvg : Except AgentError (F × F × F)
  virtualMemory : Except AgentError Usage
  swapMemory : Except AgentError Usage
  partitions : Except AgentError (List Partition)
  diskUsage : String → Except AgentError Usage
  disk : DiskReading
  network : NetworkReading
  now : Time

section Collect

variable {F : Type}

/-- `primaryIP`; `isIPv4` says that `net.ParseCIDR` accepts an address and `To4` its IP. -/
def primaryIP (isIPv4 : List Char → Bool) (r : Readings F) : Except AgentError Unit :=
  match defaultRouteName r.hostRoute with
  | .error err => .error err
  | .ok interfaceName =>
    match r.netInterfaces with
    | .error err => .error (.wrap "read network interfaces" err)
    | .ok interfaces =>
      match interfaces.find? fun networkInterface => networkInterface.name == interfaceName with
      | none => .error (.route interfaceName "not found")
      | some networkInterface =>
        if networkInterface.addrs.any isIPv4 then .ok ()
        else .error (.route interfaceName "has no IPv4 address")

/-- `Host`, as far as the host name. -/
def host (isIPv4 : List Char → Bool) (r : Readings F) : Except AgentError String :=
  match r.hostInfo with
  | .error err => .error (.wrap "read host info" err)
  | .ok hostname =>
    match r.cpuInfo with
    | .error err => .error (.wrap "read cpu info" err)
    | .ok _ =>
      match r.cpuCounts with
      | .error err => .error (.wrap "read cpu count" err)
      | .ok _ => (primaryIP isIPv4 r).map fun _ => hostname

def cpu (r : Readings F) : Except AgentError (CPUStats F) :=
  match r.cpuPercent with
  | .error err => .error (.wrap "read cpu usage" err)
  | .ok [] => .error (.text "read cpu usage: no samples")
  | .ok (usagePercent :: _) =>
    match r.loadAvg with
    | .error err => .error (.wrap "read load average" err)
    | .ok (load1, load5, load15) => .ok { usagePercent, load1, load5, load15 }

def memory (r : Readings F) : Except AgentError MemoryStats :=
  match r.virtualMemory with
  | .error err => .error (.wrap "read memory" err)
  | .ok virtual =>
    match r.swapMemory with
    | .error err => .error (.wrap "read swap" err)
    | .ok swap =>
      .ok { totalBytes := virtual.total, usedBytes := virtual.used, swapTotalBytes := swap.total
            swapUsedBytes := swap.used }

def persistentDisks (r : Readings F) : Except AgentError (List DiskStats) :=
  match r.partitions with
  | .error err => .error (.wrap "read partitions" err)
  | .ok partitions => reportDisks r.diskUsage partitions

/-- `Collector.Collect`, with a `GopsutilSource` for its source. -/
def collect (c : Conversion) (isIPv4 : List Char → Bool) (agentVersion : String)
    (s : GopsutilSource) (r : Readings F) : Except AgentError (AgentReport F) × GopsutilSource :=
  match host isIPv4 r with
  | .error err => (.error (.wrap "collect host" err), s)
  | .ok hostname =>
    match cpu r with
    | .error err => (.error (.wrap "collect cpu" err), s)
    | .ok cpu =>
      match memory r with
      | .error err => (.error (.wrap "collect memory" err), s)
      | .ok memory =>
        match persistentDisks r with
        | .error err => (.error (.wrap "collect disks" err), s)
        | .ok disks =>
          match s.diskIo c r.disk with
          | (.error err, s) => (.error (.wrap "collect disk io" err), s)
          | (.ok diskIO, s) =>
            match s.defaultRouteNetwork c r.network with
            | (.error err, s) => (.error (.wrap "collect network" err), s)
            | (.ok (_, network), s) =>
              (.ok { collectedAtUnix := r.now.unix, agentVersion, hostname, cpu, memory, disks, diskIO
                     network }, s)

end Collect

end TinyProbe.Agent
