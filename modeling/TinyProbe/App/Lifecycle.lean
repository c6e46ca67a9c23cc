import TinyProbe.Lib.Run
import TinyProbe.Lib.Trace
import Mathlib.Logic.Function.Basic

/-!
# The lifecycle of the application

`RunBackground` starts the background runners, and `Close` closes the streams, cancels the runners,
waits for them and closes the database. Both may be called by any goroutine at any time, and
`closeStreams` by the shutdown of the HTTP server besides. A call takes one step for each thing it
does that others can come between; a critical section in which nothing else can move is one step.
`RunBackground` keeps `lifecycleMu` while it launches the runners, and these run meanwhile.

Channels that only get closed are numbers. The log records what happens, and is read by no step. A
runner may return whenever it has begun to run, so what its context says is left out.
-/

namespace TinyProbe.App

open Run Trace

/-- What `newRuntime` and `New` put together: the number of background runners, and whether there
are a stream closer and a database. -/
structure Runtime where
  background : Nat
  streams : Bool
  conn : Bool

/-- The goroutine of a background runner. -/
inductive Runner where
  | idle
  /-- Its `go` statement is executed. -/
  | launched
  | running
  | returned
deriving DecidableEq

/-- `sync.Once`. -/
inductive Once where
  | unused
  | running
  | done
deriving DecidableEq

/-- What `Close` has read under the lock: whether there is something to cancel, and two channels. -/
structure Closing where
  cancel : Bool
  done : Option Nat
  closeDone : Nat
deriving DecidableEq

/-- What a goroutine does next. -/
inductive Pc (E : Type) where
  /-- It is in none of the calls. -/
  | idle
  /-- The loop of `startBackground`, with the lock. -/
  | launching (launched done : Nat)
  /-- `streamsCloseOnce.Do`, called from `Close` or else from `shutdownServer`. -/
  | once (call : Option Closing)
  /-- Inside it, while `streams.Close` runs. -/
  | closer (call : Option Closing)
  | cancel (call : Closing)
  | wait (call : Closing)
  | conn (call : Closing)
  | publish (call : Closing) (err : Option E)
  /-- `Close` while another one is under way. -/
  | await (closeDone : Option Nat)
  | read
deriving DecidableEq

/-- What happens. -/
inductive Mark (G E : Type) where
  /-- `RunBackground` goes about starting the runners. -/
  | begun (done : Nat)
  | started (runner : Nat)
  | returned (runner : Nat)
  /-- `RunBackground` returns. -/
  | background (g : G) (done : Option Nat)
  /-- `Close` sets `closeStarted`. -/
  | closing (g : G)
  /-- `streams.Close` is called. -/
  | streams
  /-- `Close` cancels the context of the runners. -/
  | cancelled
  /-- `conn.Close` has returned. -/
  | connClosed (err : Option E)
  /-- `Close` returns. -/
  | closed (g : G) (err : Option E)
deriving DecidableEq

/-- `Application`, its goroutines, and the log. `waiter` is the channel that the last goroutine of
`startBackground` is going to close. -/
structure Application (G E : Type) where
  lifecycleMu : Option G
  backgroundStarted : Bool
  backgroundCancel : Bool
  backgroundDone : Option Nat
  closeStarted : Bool
  closeDone : Option Nat
  closeErr : Option E
  streamsCloseOnce : Once
  runners : List Runner
  waiter : Option Nat
  made : Nat
  closedChannels : List Nat
  pc : G → Pc E
  log : List (Mark G E)

namespace Application

variable {G E : Type}

/-- One step: a call, the next step of the call a goroutine is in (`err` is what `conn.Close`
returns), or a step of a goroutine of `startBackground`. -/
inductive Action (G E : Type) where
  | runBackground (g : G)
  | close (g : G)
  | closeStreams (g : G)
  | proceed (g : G) (err : Option E)
  | run (runner : Nat)
  | returned (runner : Nat)
  | finish

/-- `New`. -/
def new (r : Runtime) : Application G E :=
  { lifecycleMu := none, backgroundStarted := false, backgroundCancel := false
    backgroundDone := none, closeStarted := false, closeDone := none, closeErr := none
    streamsCloseOnce := .unused, runners := List.replicate r.background .idle, waiter := none
    made := 0, closedChannels := [], pc := fun _ => .idle, log := [] }

section Steps

variable [DecidableEq G]

def enter (a : Application G E) (g : G) (pc : Pc E) : Application G E :=
  { a with pc := Function.update a.pc g pc }

def mark (a : Application G E) (m : Mark G E) : Application G E := { a with log := a.log ++ [m] }

/-- `if a.backgroundDone == nil { a.backgroundDone = alreadyDone() }`. -/
def orAlreadyDone (a : Application G E) : Application G E :=
  match a.backgroundDone with
  | some _ => a
  | none =>
    { a with
      backgroundDone := some a.made
      made := a.made + 1
      closedChannels := a.closedChannels ++ [a.made] }

/-- `RunBackground`, up to the loop of `startBackground`. -/
def runBackground (a : Application G E) (g : G) : Application G E :=
  if a.closeStarted then a.orAlreadyDone.mark (.background g a.orAlreadyDone.backgroundDone)
  else if a.backgroundStarted then a.mark (.background g a.backgroundDone)
  else
    ({ a with
      lifecycleMu := some g
      backgroundStarted := true
      backgroundCancel := true
      made := a.made + 1 }.enter g (.launching 0 a.made)).mark (.begun a.made)

/-- The loop of `startBackground`, and the end of `RunBackground`. -/
def launch (a : Application G E) (g : G) (launched done : Nat) : Application G E :=
  if launched < a.runners.length then
    ({ a with runners := a.runners.set launched .launched }.enter g
      (.launching (launched + 1) done)).mark (.started launched)
  else
    ({ a with lifecycleMu := none, backgroundDone := some done, waiter := some done }.enter g
      .idle).mark (.background g (some done))

/-- What the first `Close` sets. -/
def setClose (a : Application G E) : Application G E :=
  { a with closeStarted := true, closeDone := some a.made, made := a.made + 1 }.orAlreadyDone

/-- `Close`, as far as it keeps the lock. -/
def close (a : Application G E) (g : G) : Application G E :=
  if a.closeStarted then a.enter g (.await a.closeDone)
  else
    (a.setClose.enter g (.once (some ⟨a.backgroundCancel, a.setClose.backgroundDone, a.made⟩))).mark
      (.closing g)

/-- What follows `closeStreams`. -/
def afterStreams : Option Closing → Pc E
  | none => .idle
  | some call => .cancel call

/-- `streamsCloseOnce.Do`, up to the call of `streams.Close`. A caller that finds another one inside
waits for it. -/
def closeStreams (r : Runtime) (a : Application G E) (g : G) (call : Option Closing) :
    Application G E :=
  match a.streamsCloseOnce with
  | .unused =>
    let a := { a with streamsCloseOnce := .running }.enter g (.closer call)
    if r.streams then a.mark .streams else a
  | .running => a
  | .done => a.enter g (afterStreams call)

/-- The end of `Close`. -/
def publish (a : Application G E) (g : G) (call : Closing) (err : Option E) : Application G E :=
  match a.lifecycleMu with
  | some _ => a
  | none =>
    ({ a with
      closeErr := err
      closedChannels := a.closedChannels ++ [call.closeDone] }.enter g .idle).mark (.closed g err)

/-- The channel is there and closed, so a receive from it returns. -/
def isClosed (a : Application G E) (channel : Option Nat) : Bool :=
  channel.any (a.closedChannels.contains ·)

def proceed (r : Runtime) (a : Application G E) (g : G) (err : Option E) : Application G E :=
  match a.pc g with
  | .idle => a
  | .launching launched done => a.launch g launched done
  | .once call => a.closeStreams r g call
  | .closer call => { a with streamsCloseOnce := .done }.enter g (afterStreams call)
  | .cancel call =>
    let a := a.enter g (.wait call)
    if call.cancel then a.mark .cancelled else a
  | .wait call => if a.isClosed call.done then a.enter g (.conn call) else a
  | .conn call =>
    if r.conn then (a.enter g (.publish call err)).mark (.connClosed err)
    else a.enter g (.publish call none)
  | .publish call err => a.publish g call err
  | .await closeDone => if a.isClosed closeDone then a.enter g .read else a
  | .read =>
    match a.lifecycleMu with
    | some _ => a
    | none => (a.enter g .idle).mark (.closed g a.closeErr)

/-- A call that begins with the lock. -/
def lock (a : Application G E) (g : G) (call : Application G E) : Application G E :=
  match a.pc g, a.lifecycleMu with
  | .idle, none => call
  | _, _ => a

def step (r : Runtime) (a : Application G E) : Action G E → Application G E
  | .runBackground g => a.lock g (a.runBackground g)
  | .close g => a.lock g (a.close g)
  | .closeStreams g =>
    match a.pc g with
    | .idle => a.enter g (.once none)
    | _ => a
  | .proceed g err => a.proceed r g err
  | .run i =>
    if a.runners[i]? = some .launched then { a with runners := a.runners.set i .running } else a
  | .returned i =>
    if a.runners[i]? = some .running then
      { a with runners := a.runners.set i .returned }.mark (.returned i)
    else a
  | .finish =>
    match a.waiter with
    | none => a
    | some done =>
      if a.runners.all (· = .returned) then
        { a with waiter := none, closedChannels := a.closedChannels ++ [done] }
      else a

end Steps

section Laws

variable {a : Application G E} {g : G}

/-- With a completion channel at hand nothing is made. -/
theorem orAlreadyDone_of_some {d : Nat} (h : a.backgroundDone = some d) : a.orAlreadyDone = a := by
  rw [orAlreadyDone, h]

/-- Without one, a closed channel is made and kept. -/
theorem orAlreadyDone_of_none (h : a.backgroundDone = none) : a.orAlreadyDone =
    { a with
      backgroundDone := some a.made
      made := a.made + 1
      closedChannels := a.closedChannels ++ [a.made] } := by
  rw [orAlreadyDone, h]

@[simp] theorem orAlreadyDone_log : a.orAlreadyDone.log = a.log := by
  unfold orAlreadyDone
  split
  next => rfl
  next => rfl

@[simp] theorem orAlreadyDone_runners : a.orAlreadyDone.runners = a.runners := by
  unfold orAlreadyDone
  split
  next => rfl
  next => rfl

@[simp] theorem orAlreadyDone_closeStarted : a.orAlreadyDone.closeStarted = a.closeStarted := by
  unfold orAlreadyDone
  split
  next => rfl
  next => rfl

@[simp] theorem orAlreadyDone_closeDone : a.orAlreadyDone.closeDone = a.closeDone := by
  unfold orAlreadyDone
  split
  next => rfl
  next => rfl

@[simp] theorem orAlreadyDone_streamsCloseOnce :
    a.orAlreadyDone.streamsCloseOnce = a.streamsCloseOnce := by
  unfold orAlreadyDone
  split
  next => rfl
  next => rfl

@[simp] theorem orAlreadyDone_pc : a.orAlreadyDone.pc = a.pc := by
  unfold orAlreadyDone
  split
  next => rfl
  next => rfl

/-- Afterwards there is a completion channel in any case. -/
theorem orAlreadyDone_ne_none : a.orAlreadyDone.backgroundDone ≠ none := by
  unfold orAlreadyDone
  split
  next hdone => exact fun h => absurd (hdone.symm.trans h) (fun h => by cases h)
  next => exact fun h => by cases h

/-- The only channel it may close is the one it makes. -/
theorem mem_orAlreadyDone {d : Nat} (h : d ∈ a.orAlreadyDone.closedChannels) :
    d ∈ a.closedChannels ∨ d = a.made := by
  unfold orAlreadyDone at h
  split at h
  next => exact Or.inl h
  next => exact (List.mem_append.mp h).imp_right List.mem_singleton.mp

private theorem isClosed_iff {channel : Option Nat} :
    a.isClosed channel = true ↔ ∃ d, channel = some d ∧ d ∈ a.closedChannels := by
  simp only [isClosed, Option.any_eq_true, List.contains_eq_mem, decide_eq_true_iff]

/-- A call that finds the goroutine busy or the lock taken does nothing. -/
private theorem lock_cases (call : Application G E) :
    a.lock g call = a ∨ a.pc g = .idle ∧ a.lifecycleMu = none ∧ a.lock g call = call := by
  unfold lock
  split
  next hpc hmu => exact Or.inr ⟨hpc, hmu, rfl⟩
  next => exact Or.inl rfl

end Laws

variable [DecidableEq G]

/-- What a step can do, and when. -/
inductive Move (r : Runtime) (a : Application G E) : Application G E → Prop
  | refuse (g : G) : a.lifecycleMu = none → a.closeStarted = true →
    Move r a (a.orAlreadyDone.mark (.background g a.orAlreadyDone.backgroundDone))
  | again (g : G) : a.lifecycleMu = none → a.closeStarted = false → a.backgroundStarted = true →
    Move r a (a.mark (.background g a.backgroundDone))
  | begin (g : G) : a.pc g = .idle → a.lifecycleMu = none → a.closeStarted = false →
    a.backgroundStarted = false →
    Move r a (({ a with
      lifecycleMu := some g
      backgroundStarted := true
      backgroundCancel := true
      made := a.made + 1 }.enter g (.launching 0 a.made)).mark (.begun a.made))
  | launch (g : G) (i d : Nat) : a.pc g = .launching i d → i < a.runners.length →
    Move r a (({ a with runners := a.runners.set i .launched }.enter g
      (.launching (i + 1) d)).mark (.started i))
  | launched (g : G) (i d : Nat) : a.pc g = .launching i d → ¬ i < a.runners.length →
    Move r a (({ a with lifecycleMu := none, backgroundDone := some d, waiter := some d }.enter g
      .idle).mark (.background g (some d)))
  | await (g : G) : a.pc g = .idle → a.lifecycleMu = none → a.closeStarted = true →
    Move r a (a.enter g (.await a.closeDone))
  | closing (g : G) : a.pc g = .idle → a.lifecycleMu = none → a.closeStarted = false →
    Move r a (a.close g)
  | shutdown (g : G) : a.pc g = .idle → Move r a (a.enter g (.once none))
  | streams (g : G) (call : Option Closing) : a.pc g = .once call → a.streamsCloseOnce = .unused →
    Move r a (a.closeStreams r g call)
  | skip (g : G) (call : Option Closing) : a.pc g = .once call → a.streamsCloseOnce = .done →
    Move r a (a.enter g (afterStreams call))
  | closer (g : G) (call : Option Closing) : a.pc g = .closer call →
    Move r a ({ a with streamsCloseOnce := .done }.enter g (afterStreams call))
  | cancel (g : G) (call : Closing) : a.pc g = .cancel call →
    Move r a (if call.cancel then (a.enter g (.wait call)).mark .cancelled
      else a.enter g (.wait call))
  | wait (g : G) (call : Closing) (d : Nat) : a.pc g = .wait call → call.done = some d →
    d ∈ a.closedChannels → Move r a (a.enter g (.conn call))
  | conn (g : G) (call : Closing) (err : Option E) : a.pc g = .conn call → r.conn = true →
    Move r a ((a.enter g (.publish call err)).mark (.connClosed err))
  | noConn (g : G) (call : Closing) : a.pc g = .conn call → r.conn = false →
    Move r a (a.enter g (.publish call none))
  | publish (g : G) (call : Closing) (err : Option E) : a.pc g = .publish call err →
    a.lifecycleMu = none → Move r a (({ a with
      closeErr := err
      closedChannels := a.closedChannels ++ [call.closeDone] }.enter g .idle).mark (.closed g err))
  | awaited (g : G) (d : Nat) : a.pc g = .await (some d) → d ∈ a.closedChannels →
    Move r a (a.enter g .read)
  | read (g : G) : a.pc g = .read → a.lifecycleMu = none →
    Move r a ((a.enter g .idle).mark (.closed g a.closeErr))
  | run (i : Nat) : a.runners[i]? = some .launched →
    Move r a { a with runners := a.runners.set i .running }
  | returned (i : Nat) : a.runners[i]? = some .running →
    Move r a ({ a with runners := a.runners.set i .returned }.mark (.returned i))
  | finish (d : Nat) : a.waiter = some d → (∀ p ∈ a.runners, p = .returned) →
    Move r a { a with waiter := none, closedChannels := a.closedChannels ++ [d] }

section Laws

variable {r : Runtime} {a : Application G E} {g : G}

/-- Entering a place moves one goroutine. -/
theorem pc_enter (g' : G) (pc : Pc E) :
    (a.enter g pc).pc g' = if g' = g then pc else a.pc g' :=
  Function.update_apply a.pc g pc g'

/-- The first `Close` takes the cancel function and the channels with it, and goes on without the
lock. -/
theorem close_eq (hclose : a.closeStarted = false) : a.close g =
    (a.setClose.enter g (.once (some ⟨a.backgroundCancel, a.setClose.backgroundDone, a.made⟩))).mark
      (.closing g) := by
  rw [Application.close, if_neg (by rw [hclose]; exact Bool.false_ne_true)]

/-- What a goroutine does next is a move, or it has to wait. -/
theorem move_proceed (a : Application G E) (g : G) (err : Option E) :
    a.proceed r g err = a ∨ Move r a (a.proceed r g err) := by
  unfold proceed
  split
  next => exact Or.inl rfl
  next i d hpc =>
    right
    unfold Application.launch
    split
    next h => exact .launch g i d hpc h
    next h => exact .launched g i d hpc h
  next call hpc =>
    cases honce : a.streamsCloseOnce with
    | unused => exact Or.inr (.streams g call hpc honce)
    | running => left; rw [Application.closeStreams, honce]
    | done => right; rw [Application.closeStreams, honce]; exact .skip g call hpc honce
  next call hpc => exact Or.inr (.closer g call hpc)
  next call hpc => exact Or.inr (.cancel g call hpc)
  next call hpc =>
    split
    next h =>
      obtain ⟨d, hdone, hd⟩ := isClosed_iff.mp h
      exact Or.inr (.wait g call d hpc hdone hd)
    next => exact Or.inl rfl
  next call hpc =>
    right
    split
    next h => exact .conn g call err hpc h
    next h => exact .noConn g call hpc (Bool.eq_false_iff.mpr h)
  next call err' hpc =>
    unfold Application.publish
    split
    next => exact Or.inl rfl
    next hmu => exact Or.inr (.publish g call err' hpc hmu)
  next closeDone hpc =>
    split
    next h =>
      obtain ⟨d, rfl, hd⟩ := isClosed_iff.mp h
      exact Or.inr (.awaited g d hpc hd)
    next => exact Or.inl rfl
  next hpc =>
    split
    next => exact Or.inl rfl
    next hmu => exact Or.inr (.read g hpc hmu)

private theorem move_runBackground (hpc : a.pc g = .idle) (hmu : a.lifecycleMu = none) :
    Move r a (a.runBackground g) := by
  unfold Application.runBackground
  split
  next hclose => exact .refuse g hmu hclose
  next hclose =>
    have hclose := Bool.eq_false_iff.mpr hclose
    split
    next hbegun => exact .again g hmu hclose hbegun
    next hbegun => exact .begin g hpc hmu hclose (Bool.eq_false_iff.mpr hbegun)

private theorem move_close (hpc : a.pc g = .idle) (hmu : a.lifecycleMu = none) :
    Move r a (a.close g) := by
  cases hclose : a.closeStarted with
  | false => exact .closing g hpc hmu hclose
  | true =>
    rw [Application.close, if_pos hclose]
    exact .await g hpc hmu hclose

/-- **Every action is a move** or changes nothing. -/
theorem step_move (a : Application G E) (act : Action G E) :
    step r a act = a ∨ Move r a (step r a act) := by
  cases act with
  | runBackground g =>
    rcases lock_cases (a := a) (g := g) (a.runBackground g) with h | ⟨hpc, hmu, h⟩
    · exact Or.inl h
    · rw [step, h]
      exact Or.inr (move_runBackground hpc hmu)
  | close g =>
    rcases lock_cases (a := a) (g := g) (a.close g) with h | ⟨hpc, hmu, h⟩
    · exact Or.inl h
    · rw [step, h]
      exact Or.inr (move_close hpc hmu)
  | closeStreams g =>
    simp only [step]
    split
    next hpc => exact Or.inr (.shutdown g hpc)
    next => exact Or.inl rfl
  | proceed g err => exact move_proceed a g err
  | run i =>
    simp only [step]
    split
    next h => exact Or.inr (.run i h)
    next => exact Or.inl rfl
  | returned i =>
    simp only [step]
    split
    next h => exact Or.inr (.returned i h)
    next => exact Or.inl rfl
  | finish =>
    simp only [step]
    split
    next => exact Or.inl rfl
    next d hd =>
      split
      next h => exact Or.inr (.finish d hd (by simpa using h))
      next => exact Or.inl rfl

end Laws

end Application

end TinyProbe.App
