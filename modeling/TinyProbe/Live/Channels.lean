import TinyProbe.Live.Window
import Mathlib.Data.List.Perm.Basic
import Mathlib.Logic.Function.Basic

/-!
# The hub and all its subscribers

Calls of `Subscribe`, `Publish`, `Close` and the cancel functions come from any goroutine at any time.
Each does its work under the lock (`Section`), one step for each operation on a channel; receives
need no lock and come between these steps. A channel is named by the call of `Subscribe` that made
it. A `range` over the map takes the subscribers in any order: the step that begins a section is given
one.

Nobody can see the map without the lock, so `delete(h.subscribers, subscriber)` and the
`close(subscriber)` right after it are one step. A send on a closed channel and a close of a closed one
panic, and that is the end of the program (`panicked`).
-/

namespace TinyProbe.Live

open Run

variable {F : Type}

namespace Hub

inductive Operation (F : Type) where
  | subscribe
  /-- The cancel function of a channel. -/
  | cancel (id : Nat)
  | publish (event : Event F)
  | close

/-- What the call that holds the lock is about to do. -/
inductive Section (F : Type) where
  /-- The loop of `Publish`; `current` is the subscriber whose `select`s are under way. -/
  | offering (event : Event F) (remaining : List Nat) (current : Option Nat)
  /-- The loop of `Close`. -/
  | closing (remaining : List Nat)
  /-- `h.mu.Unlock()`. -/
  | done

/-- Where a call is. -/
inductive Pc (F : Type) where
  /-- `once.Do` of a cancel function. -/
  | once (id : Nat)
  /-- `h.mu.Lock()`. -/
  | locking (operation : Operation F)
  | locked
  /-- Between the unlock and the return. -/
  | returning (operation : Operation F)
  | returned

/-- The call that holds the lock. -/
structure Holder (F : Type) where
  call : Nat
  operation : Operation F
  next : Section F

/-- `sync.Once`. -/
inductive Once where
  | unused
  | running
  | done
deriving DecidableEq

/-- What has become of the channel of a call of `Subscribe`. -/
inductive Stage where
  /-- No such call. -/
  | absent
  /-- `Subscribe` has made the channel. -/
  | made
  /-- It has put the channel in the map, as the hub was not closed. -/
  | admitted
  /-- It has closed the channel, as the hub was closed. -/
  | refused
deriving DecidableEq

/-- A subscriber: its channel, the `once` of its cancel function, and records of the run. `since` is
the number of events published before it subscribed; it is `late` if a `Close` had returned before
`Subscribe` was called. -/
structure Seat (F : Type) where
  channel : Channel F
  stage : Stage
  returned : Bool
  once : Once
  since : Nat
  late : Bool

def Seat.new : Seat F :=
  { channel := Channel.new, stage := .absent, returned := false, once := .unused, since := 0
    late := false }

end Hub

open Hub

/-- `Hub`, the calls on it, and the records of the run. -/
structure Hub (F : Type) where
  closed : Bool
  subscribers : List Nat
  seats : Nat → Seat F
  lock : Option (Holder F)
  calls : List (Pc F)
  panicked : Bool
  published : List (Event F)
  closeReturned : Bool

namespace Hub

/-- A call, the next step of a call, or a receive from the channel of a subscriber. -/
inductive Action (F : Type) where
  | subscribe
  | cancel (id : Nat)
  | publish (event : Event F)
  | close
  | advance (call : Nat) (order : List Nat)
  | receive (id : Nat)

/-- `NewHub`. -/
def new : Hub F :=
  { closed := false, subscribers := [], seats := fun _ => Seat.new, lock := none, calls := []
    panicked := false, published := [], closeReturned := false }

def setSeat (h : Hub F) (id : Nat) (seat : Seat F) : Hub F :=
  { h with seats := Function.update h.seats id seat }

def setChannel (h : Hub F) (id : Nat) (channel : Channel F) : Hub F :=
  h.setSeat id { h.seats id with channel }

def goto (h : Hub F) (call : Nat) (pc : Pc F) : Hub F := { h with calls := h.calls.set call pc }

/-- The lock is kept, and `next` comes next. -/
def hold (h : Hub F) (call : Nat) (operation : Operation F) (next : Section F) : Hub F :=
  { h with lock := some { call, operation, next } }

/-- `close(subscriber)`. -/
def closeChannel (h : Hub F) (id : Nat) : Hub F :=
  if (h.seats id).channel.closed then { h with panicked := true }
  else h.setChannel id { (h.seats id).channel with closed := true }

/-- `delete(h.subscribers, subscriber)` and `close(subscriber)`. -/
def remove (h : Hub F) (id : Nat) : Hub F :=
  { h with subscribers := h.subscribers.erase id }.closeChannel id

def settle (h : Hub F) (id : Nat) (stage : Stage) : Hub F :=
  h.setSeat id { h.seats id with stage, since := h.published.length }

/-- What comes right after the lock. -/
def enter (h : Hub F) (call : Nat) (operation : Operation F) (order : List Nat) : Hub F :=
  match operation with
  | .subscribe =>
    if h.closed then ((h.closeChannel call).settle call .refused).hold call operation .done
    else
      ({ h with subscribers := h.subscribers ++ [call] }.settle call .admitted).hold call operation
        .done
  | .cancel id =>
    if id ∈ h.subscribers then (h.remove id).hold call operation .done
    else h.hold call operation .done
  | .publish event =>
    if h.closed then h.hold call operation .done
    else
      { h with published := h.published ++ [event] }.hold call operation
        (.offering event order none)
  | .close =>
    if h.closed then h.hold call operation .done
    else { h with closed := true }.hold call operation (.closing order)

/-- The next `select` of `Publish` sends. -/
def sends (c : Channel F) : Bool :=
  match c.subscription.publishing with
  | some (_, .sending) => true
  | some (_, .resending) => true
  | _ => false

/-- A `select` of `Publish`. -/
def offer (h : Hub F) (call : Nat) (operation : Operation F) (event : Event F)
    (remaining : List Nat) (id : Nat) : Hub F :=
  let channel := (h.seats id).channel
  if channel.closed && sends channel then { h with panicked := true }
  else
    let channel := channel.step .proceed
    let current := if channel.subscription.publishing.isSome then some id else none
    (h.setChannel id channel).hold call operation (.offering event remaining current)

/-- A step under the lock. -/
def proceed (h : Hub F) (call : Nat) (operation : Operation F) : Section F → Hub F
  | .offering event remaining (some id) => h.offer call operation event remaining id
  | .offering event (id :: remaining) none =>
    (h.setChannel id ((h.seats id).channel.step (.publish event))).hold call operation
      (.offering event remaining (some id))
  | .offering _ [] none => h.hold call operation .done
  | .closing (id :: remaining) => (h.remove id).hold call operation (.closing remaining)
  | .closing [] => h.hold call operation .done
  | .done => { h with lock := none }.goto call (.returning operation)

/-- The return of a call. -/
def finish (h : Hub F) (call : Nat) (operation : Operation F) : Hub F :=
  match operation with
  | .subscribe => (h.setSeat call { h.seats call with returned := true }).goto call .returned
  | .cancel id => (h.setSeat id { h.seats id with once := .done }).goto call .returned
  | .publish _ => h.goto call .returned
  | .close => { h with closeReturned := true }.goto call .returned

def advance (h : Hub F) (call : Nat) (order : List Nat) : Hub F :=
  match h.calls[call]? with
  | none => h
  | some .returned => h
  | some (.once id) =>
    match (h.seats id).once with
    | .unused =>
      (h.setSeat id { h.seats id with once := .running }).goto call (.locking (.cancel id))
    | .running => h
    | .done => h.goto call .returned
  | some (.locking operation) =>
    match h.lock with
    | some _ => h
    | none =>
      if order.isPerm h.subscribers then (h.enter call operation order).goto call .locked else h
  | some .locked =>
    match h.lock with
    | none => h
    | some holder =>
      if holder.call = call then h.proceed call holder.operation holder.next else h
  | some (.returning operation) => h.finish call operation

/-- A call begins. -/
def spawn (h : Hub F) (pc : Pc F) : Hub F := { h with calls := h.calls ++ [pc] }

def step (h : Hub F) (a : Action F) : Hub F :=
  if h.panicked then h
  else
    match a with
    | .subscribe =>
      (h.setSeat h.calls.length { Seat.new with stage := .made, late := h.closeReturned }).spawn
        (.locking .subscribe)
    | .cancel id =>
      if (h.seats id).returned then
        match (h.seats id).stage with
        | .admitted => h.spawn (.once id)
        -- `func() {}`
        | .refused => h.spawn .returned
        | _ => h
      else h
    | .publish event => h.spawn (.locking (.publish event))
    | .close => h.spawn (.locking .close)
    | .advance call order => h.advance call order
    | .receive id =>
      if (h.seats id).returned then h.setChannel id ((h.seats id).channel.step .receive) else h

end Hub

end TinyProbe.Live
