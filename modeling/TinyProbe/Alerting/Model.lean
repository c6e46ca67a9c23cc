import TinyProbe.Live.Snapshot

/-!
# Alert rules, states and events

The records of `internal/alerting/model.go`. Metrics, operators and statuses are open string types
in the source, decoded from JSON and from the database; the known values are constructors and every
other text is `other`, so the checks (`validMetric`, `validOperator`, `validStatus`) have something
to refuse.
-/

namespace TinyProbe.Alerting

/-- `Metric`. -/
inductive Metric where
  | offline
  | cpuUsage
  | memoryUsage
  | diskUsage
  | diskFreeBytes
  | other (text : String)
deriving DecidableEq, Repr

/-- `Operator`. -/
inductive Operator where
  | greaterThan
  | lessThan
  | other (text : String)
deriving DecidableEq, Repr

/-- `Status`. -/
inductive Status where
  | normal
  | pending
  | firing
  | recovered
  | other (text : String)
deriving DecidableEq, Repr

def validMetric : Metric → Bool
  | .other _ => false
  | _ => true

/-- The metrics of a report's resources. -/
def Metric.isResource : Metric → Bool
  | .cpuUsage | .memoryUsage | .diskUsage | .diskFreeBytes => true
  | _ => false

def validOperator : Operator → Bool
  | .other _ => false
  | _ => true

def validStatus : Status → Bool
  | .other _ => false
  | _ => true

/-- `Rule`, less the `State` field that only the API's answers carry. -/
structure Rule (F : Type) where
  id : Int
  serverID : Int
  metric : Metric
  operator : Operator
  threshold : F
  durationSeconds : Int
  repeatSeconds : Int
  enabled : Bool
  createdAt : Time
  updatedAt : Time
deriving DecidableEq

/-- `State`: what the evaluator remembers of one rule. -/
structure State (F : Type) where
  ruleID : Int
  status : Status
  pendingSince : Option Time
  firingSince : Option Time
  lastNotifiedAt : Option Time
  lastValue : Option F
  updatedAt : Time
deriving DecidableEq

/-- `State{RuleID: ruleID, Status: StatusNormal}`. -/
def State.fresh {F : Type} (ruleID : Int) : State F :=
  { ruleID, status := .normal, pendingSince := none, firingSince := none, lastNotifiedAt := none
    lastValue := none, updatedAt := .zero }

/-- `Event`: the columns of `alert_events`. The server's name and the metric that `ListEvents` adds
come from joins, and the attempts from a table of their own. -/
structure Event (F : Type) where
  id : Int
  ruleID : Int
  serverID : Int
  status : Status
  currentValue : Option F
  threshold : Option F
  startedAt : Time
  endedAt : Option Time
  createdAt : Time
deriving DecidableEq

end TinyProbe.Alerting
