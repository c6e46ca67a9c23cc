import TinyProbe.Lib.Json
import TinyProbe.Base.Finite
import TinyProbe.Base.Rfc3339
import TinyProbe.Alerting.Evaluator

/-!
# The body of a notification

`RenderTemplate` executes a template of `text/template` on the data of a notification and refuses a
result that is no JSON. A parsed template is a list of nodes: text, a field as `fmt.Fprint` writes
it, and a field the `json` function has encoded. The parser is a parameter. `validateWebhook`
accepts a configuration on one rendering, of a sample.

Whether another rendering is JSON depends on where the fields stand. `InPlace` follows the scanner
through the literal text of a template: encoded text where a value or a key is due, a number where a
value is due or in a string literal, raw text in a string literal. Fields in place leave the scanner
in a state that does not depend on the data (`scan_execute`), so all renderings are JSON or none is.
-/

namespace TinyProbe

/-- How a float64 is written. Both forms of a finite value are numbers of JSON. -/
class FloatText (F : Type) extends FiniteFloat F where
  /-- `fmt.Fprint`. -/
  fprint : F → List Char
  /-- `json.Marshal`, which fails on a value that is not finite. -/
  marshal : F → List Char
  number_fprint : ∀ x, finite x = true → Json.Number (fprint x)
  number_marshal : ∀ x, finite x = true → Json.Number (marshal x)

namespace Exact

/-- Integers are written in full; other values are rounded down. -/
def text : Exact → List Char
  | fin q => (toString q.floor).toList
  | inf => "+Inf".toList

instance : FloatText Exact where
  fprint := text
  marshal := text
  number_fprint x h := by
    cases x with
    | fin q => exact Json.number_int _
    | inf => cases h
  number_marshal x h := by
    cases x with
    | fin q => exact Json.number_int _
    | inf => cases h

end Exact

namespace Time

open Rfc3339

/-- `t.String()` in UTC. -/
def string (t : Time) : List Char :=
  dateText t.day ++ ' ' :: clockText (t.unix % 86400).toNat ++
    (if t.fraction = [] then [] else '.' :: t.fraction) ++ " +0000 UTC".toList

/-- `t.Format("2006-01-02T15:04:05Z07:00")` in UTC. -/
def formatRfc3339 (t : Time) : List Char := t.formatSecond ++ ['Z']

/-- `t.MarshalJSON()`. -/
def marshal (t : Time) : Option (List Char) :=
  if 0 ≤ t.year ∧ t.year ≤ 9999 then some ('"' :: t.format ++ ['"']) else none

end Time

namespace Alerting

open Json

/-- The text of a `Metric`. -/
def Metric.text : Metric → String
  | .offline => "offline"
  | .cpuUsage => "cpu_usage"
  | .memoryUsage => "memory_usage"
  | .diskUsage => "disk_usage"
  | .diskFreeBytes => "disk_free_bytes"
  | .other text => text

/-- The text of a `Status`. -/
def Status.text : Status → String
  | .normal => "normal"
  | .pending => "pending"
  | .firing => "firing"
  | .recovered => "recovered"
  | .other text => text

/-! ## Templates -/

/-- The fields of `TemplateData`. -/
inductive Field where
  | eventID
  | serverID
  | serverName
  | metric
  | status
  | currentValue
  | threshold
  | startedAt
  /-- `.StartedAt.Format`, with the layout of the default template. -/
  | startedAtFormat
  | endedAt
  | detailURL
deriving DecidableEq, Repr

/-- A node of a parsed template. -/
inductive Node where
  | text (text : String)
  /-- `{{.Field}}`. -/
  | raw (field : Field)
  /-- `{{json .Field}}`. -/
  | json (field : Field)
deriving DecidableEq, Repr

abbrev Template := List Node

/-- The errors of `RenderTemplate`: of `Parse`, of `Execute`, and "webhook template must render
valid JSON". -/
inductive TemplateError where
  | parse
  | execute
  | invalidJSON
deriving DecidableEq, Repr

section Rendering

variable {F : Type} [FloatText F]

/-- A field as `fmt.Fprint` writes it. -/
def fprintField (data : TemplateData F) : Field → List Char
  | .eventID => (toString data.eventID).toList
  | .serverID => (toString data.serverID).toList
  | .serverName => data.serverName.toList
  | .metric => data.metric.text.toList
  | .status => data.status.text.toList
  | .currentValue => FloatText.fprint data.currentValue
  | .threshold => FloatText.fprint data.threshold
  | .startedAt => data.startedAt.string
  | .startedAtFormat => data.startedAt.formatRfc3339
  | .endedAt => data.endedAt.elim "<nil>".toList Time.string
  | .detailURL => data.detailURL.toList

/-- `json.Marshal` of a number. -/
def marshalFloat (x : F) : Option (List Char) :=
  if FiniteFloat.finite x then some (FloatText.marshal x) else none

/-- A field as the `json` function writes it. -/
def marshalField (data : TemplateData F) : Field → Option (List Char)
  | .eventID => some (toString data.eventID).toList
  | .serverID => some (toString data.serverID).toList
  | .serverName => some (quote data.serverName.toList)
  | .metric => some (quote data.metric.text.toList)
  | .status => some (quote data.status.text.toList)
  | .currentValue => marshalFloat data.currentValue
  | .threshold => marshalFloat data.threshold
  | .startedAt => data.startedAt.marshal
  | .startedAtFormat => some (quote data.startedAt.formatRfc3339)
  | .endedAt => data.endedAt.elim (some "null".toList) Time.marshal
  | .detailURL => some (quote data.detailURL.toList)

def executeNode (data : TemplateData F) : Node → Option (List Char)
  | .text text => some text.toList
  | .raw field => some (fprintField data field)
  | .json field => marshalField data field

/-- `templateValue.Execute`. -/
def execute (data : TemplateData F) : Template → Option (List Char)
  | [] => some []
  | node :: nodes => do return (← executeNode data node) ++ (← execute data nodes)

/-- `RenderTemplate`. -/
def renderTemplate (parse : String → Option Template) (templateText : String)
    (data : TemplateData F) : Except TemplateError (List Char) :=
  match parse templateText with
  | none => .error .parse
  | some template =>
    match execute data template with
    | none => .error .execute
    | some body => if valid body then .ok body else .error .invalidJSON

/-- `DefaultBodyTemplate`. -/
def defaultBodyTemplate : String :=
  "\x7b\n" ++
  "  \"server\": \x7b\x7bjson .ServerName\x7d\x7d,\n" ++
  "  \"metric\": \"\x7b\x7b.Metric\x7d\x7d\",\n" ++
  "  \"status\": \"\x7b\x7b.Status\x7d\x7d\",\n" ++
  "  \"currentValue\": \x7b\x7b.CurrentValue\x7d\x7d,\n" ++
  "  \"threshold\": \x7b\x7b.Threshold\x7d\x7d,\n" ++
  "  \"startedAt\": \"\x7b\x7b.StartedAt.Format \"2006-01-02T15:04:05Z07:00\"\x7d\x7d\",\n" ++
  "  \"detailUrl\": \x7b\x7bjson .DetailURL\x7d\x7d\n" ++
  "\x7d"

/-- What `url.Parse` reads off an address. -/
structure Endpoint where
  scheme : String
  host : String
deriving DecidableEq, Repr

/-- The data of the sample in `validateWebhook`. -/
def sampleData (now : Time) : TemplateData F :=
  { eventID := 0, serverID := 0, serverName := "Webhook 测试", metric := .cpuUsage, status := .firing
    currentValue := Float64.ofNat 0, threshold := Float64.ofNat 0, startedAt := now
    endedAt := none, detailURL := "" }

end Rendering

/-- `validateWebhook`: a URL with a scheme is absolute. -/
def validateWebhook (F : Type) [FloatText F] (parse : String → Option Template)
    (parseURL : String → Option Endpoint) (config : WebhookConfig) (now : Time) : Bool :=
  (parseURL config.url).any (fun endpoint =>
      endpoint.host != "" && (endpoint.scheme == "http" || endpoint.scheme == "https")) &&
    (renderTemplate parse config.bodyTemplate (sampleData now : TemplateData F)).isOk

end Alerting

end TinyProbe
