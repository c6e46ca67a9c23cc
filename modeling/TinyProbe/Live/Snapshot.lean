import TinyProbe.Base.Time
import TinyProbe.Base.Float64

/-!
# Reports, snapshots and live events

The agent's report, the snapshot the live store keeps of a server, and the event the coordinator
publishes about it. Fields of the report that no modelled function reads (the descriptive host
fields other than the host name, `Network.Interface`) are left out.
-/

namespace TinyProbe

namespace Servers

/-- `servers.Server`: the fields the live path reads. -/
structure Server where
  id : Int
  name : String
  enabled : Bool
deriving DecidableEq

end Servers

namespace Protocol

structure CPUStats (F : Type) where
  usagePercent : F
  load1 : F
  load5 : F
  load15 : F
deriving DecidableEq

structure MemoryStats where
  totalBytes : UInt64
  usedBytes : UInt64
  swapTotalBytes : UInt64
  swapUsedBytes : UInt64
deriving DecidableEq

structure DiskStats where
  mountpoint : String
  totalBytes : UInt64
  usedBytes : UInt64
deriving DecidableEq

structure DiskIOStats where
  readBytesPerSecond : UInt64
  writeBytesPerSecond : UInt64
deriving DecidableEq

structure NetworkStats where
  uploadBytesPerSecond : UInt64
  downloadBytesPerSecond : UInt64
  totalUploadBytes : UInt64
  totalDownloadBytes : UInt64
deriving DecidableEq

/-- `protocol.AgentReport`. -/
structure AgentReport (F : Type) where
  collectedAtUnix : Int
  agentVersion : String
  hostname : String
  cpu : CPUStats F
  memory : MemoryStats
  disks : List DiskStats
  diskIO : DiskIOStats
  network : NetworkStats
deriving DecidableEq

/-- A report of one CPU reading: every other field has its zero value. -/
def AgentReport.ofCPU {F : Type} [Float64 F] (usagePercent : F) : AgentReport F :=
  let zero : F := Float64.ofNat 0
  { collectedAtUnix := 0, agentVersion := "", hostname := ""
    cpu := { usagePercent, load1 := zero, load5 := zero, load15 := zero }
    memory := { totalBytes := 0, usedBytes := 0, swapTotalBytes := 0, swapUsedBytes := 0 }
    disks := []
    diskIO := { readBytesPerSecond := 0, writeBytesPerSecond := 0 }
    network := { uploadBytesPerSecond := 0, downloadBytesPerSecond := 0
                 totalUploadBytes := 0, totalDownloadBytes := 0 } }

end Protocol

namespace Live

/-- `live.Snapshot`. -/
structure Snapshot (F : Type) where
  serverID : Int
  serverName : String
  online : Bool
  lastReceivedAt : Time
  sourceIP : String
  report : Protocol.AgentReport F
deriving DecidableEq

/-- The two event types the coordinator publishes, `"snapshot.updated"` and
`"snapshot.offline"`. -/
inductive EventType where
  | updated
  | offline
deriving DecidableEq, Repr

/-- `live.Event`. -/
structure Event (F : Type) where
  type : EventType
  snapshot : Snapshot F
deriving DecidableEq

end Live

end TinyProbe
