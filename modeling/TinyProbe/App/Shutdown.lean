import TinyProbe.App.Background

/-!
# How far closing is

Closing has three stages (`Shutdown`): nobody has set `closeStarted`, one goroutine is in the call of
`Close` that closes, or that call has closed the channel the others wait for. What the call has done
is read off the place it has reached (`Reached`). A step that is no part of it is `Apart`.
-/

namespace TinyProbe.App.Application

open Run Trace

variable {G E : Type} [DecidableEq G] {r : Runtime} {a a' : Application G E} {g : G}

/-! ## The stages -/

/-- What the call of `Close` that closes has read. -/
def call? : Pc E → Option Closing
  | .once call => call
  | .closer call => call
  | .cancel call => some call
  | .wait call => some call
  | .conn call => some call
  | .publish call _ => some call
  | _ => none

/-- Every runner started has returned. -/
def Quiet (log : List (Mark G E)) : Prop := ∀ i, .started i ∈ log → .returned i ∈ log

/-- The goroutine is in no part of a `Close`. -/
def outside : Pc E → Bool
  | .idle | .launching _ _ | .once none | .closer none => true
  | _ => false

/-- The mark says nothing of a start, of the database or of a call of `Close` that returns. -/
def neutral : Mark G E → Bool
  | .started _ | .connClosed _ | .closed _ _ => false
  | _ => true

/-- What has happened when the call of `Close` is there. -/
def Reached (r : Runtime) (log : List (Mark G E)) : Pc E → Prop
  | .conn _ => Quiet log ∧ ∀ err, .connClosed err ∉ log
  | .publish _ err => Quiet log ∧ (r.conn = true → .connClosed err ∈ log)
  | _ => ∀ err, .connClosed err ∉ log

/-- No `Close` has got to `closeStarted`. -/
structure Unclosed (a : Application G E) : Prop where
  closeStarted : a.closeStarted = false
  calls : ∀ g, call? (a.pc g) = none
  read : ∀ g, a.pc g ≠ .read
  await : ∀ g d, a.pc g ≠ .await d
  connClosed : ∀ err, .connClosed err ∉ a.log
  closed : ∀ g err, .closed g err ∉ a.log

/-- Goroutine `g` closes. -/
structure Under (r : Runtime) (a : Application G E) (g : G) (call : Closing) : Prop where
  closeStarted : a.closeStarted = true
  closeDone : a.closeDone = some call.closeDone
  opened : call.closeDone ∉ a.closedChannels
  backgroundDone : a.backgroundDone = call.done
  done : call.done ≠ none
  calls : ∀ g', call? (a.pc g') = if g' = g then some call else none
  read : ∀ g, a.pc g ≠ .read
  await : ∀ g d, a.pc g = .await d → d = some call.closeDone
  reached : Reached r a.log (a.pc g)
  closed : ∀ g err, .closed g err ∉ a.log

structure Over (r : Runtime) (a : Application G E) (d : Nat) : Prop where
  closeStarted : a.closeStarted = true
  closeDone : a.closeDone = some d
  shut : d ∈ a.closedChannels
  backgroundDone : a.backgroundDone ≠ none
  calls : ∀ g, call? (a.pc g) = none
  await : ∀ g d', a.pc g = .await d' → d' = some d
  quiet : Quiet a.log
  connClosed : r.conn = true → .connClosed a.closeErr ∈ a.log
  closed : ∀ g err, .closed g err ∈ a.log → err = a.closeErr

inductive Shutdown (r : Runtime) (a : Application G E) : Prop
  | unclosed (h : Unclosed a)
  | under (g : G) (call : Closing) (h : Under r a g call)
  | done (d : Nat) (h : Over r a d)

/-! ## Steps that leave the calls of `Close` alone -/

/-- The step leaves the calls of `Close` alone, but for a goroutine that comes to wait for one. -/
structure Apart (a a' : Application G E) : Prop where
  closeStarted : a'.closeStarted = a.closeStarted
  closeDone : a'.closeDone = a.closeDone
  closeErr : a'.closeErr = a.closeErr
  backgroundDone : a.closeStarted = true → a.backgroundDone ≠ none →
    a'.backgroundDone = a.backgroundDone
  shut : ∀ d, a.closeDone = some d → (d ∈ a'.closedChannels ↔ d ∈ a.closedChannels)
  pc : ∀ g, a'.pc g = a.pc g ∨ call? (a.pc g) = none ∧ call? (a'.pc g) = none ∧
    a'.pc g ≠ .read ∧ ∀ d, a'.pc g = .await d → a.closeStarted = true ∧ d = a.closeDone
  connClosed : ∀ err, .connClosed err ∈ a'.log ↔ .connClosed err ∈ a.log
  closed : ∀ g err, .closed g err ∈ a'.log ↔ .closed g err ∈ a.log
  quiet : a.closeStarted = true → Quiet a.log → Quiet a'.log

omit [DecidableEq G] in
/-- What a place says depends on the log only through starts, returns and the closing of the
database. -/
theorem Reached.congr {log log' : List (Mark G E)} {pc : Pc E} (h : Reached r log pc)
    (hconn : ∀ err, .connClosed err ∈ log' ↔ .connClosed err ∈ log)
    (hquiet : Quiet log → Quiet log') : Reached r log' pc := by
  cases pc with
  | conn call => exact ⟨hquiet h.1, fun err => (hconn err).not.mpr (h.2 err)⟩
  | publish call err => exact ⟨hquiet h.1, fun hr => (hconn err).mpr (h.2 hr)⟩
  | _ => exact fun err => (hconn err).not.mpr (h err)

omit [DecidableEq G] in
/-- A step apart moves no goroutine into the call or out of it. -/
theorem Apart.calls (ha : Apart a a') (g : G) : call? (a'.pc g) = call? (a.pc g) := by
  rcases ha.pc g with h | ⟨h, h', _⟩
  · rw [h]
  · rw [h, h']

omit [DecidableEq G] in
/-- Such a step does not begin to close. -/
theorem Unclosed.apart (h : Unclosed a) (ha : Apart a a') : Unclosed a' := by
  refine ⟨ha.closeStarted.trans h.closeStarted, fun g => (ha.calls g).trans (h.calls g), fun g => ?_,
    fun g d => ?_, fun err => (ha.connClosed err).not.mpr (h.connClosed err),
    fun g err => (ha.closed g err).not.mpr (h.closed g err)⟩
  · rcases ha.pc g with hpc | ⟨_, _, hpc, _⟩
    · rw [hpc]
      exact h.read g
    · exact hpc
  · rcases ha.pc g with hpc | ⟨_, _, _, hpc⟩
    · rw [hpc]
      exact h.await g d
    · exact fun hd => Bool.false_ne_true (h.closeStarted.symm.trans (hpc d hd).1)

/-- Such a step leaves the call where it is. -/
theorem Under.apart {call : Closing} (h : Under r a g call) (ha : Apart a a') :
    Under r a' g call := by
  have hback : a.backgroundDone ≠ none := h.backgroundDone ▸ h.done
  refine ⟨ha.closeStarted.trans h.closeStarted, ha.closeDone.trans h.closeDone,
    (ha.shut _ h.closeDone).not.mpr h.opened,
    (ha.backgroundDone h.closeStarted hback).trans h.backgroundDone, h.done,
    fun g' => (ha.calls g').trans (h.calls g'), fun g' => ?_, fun g' d hd => ?_, ?_,
    fun g err => (ha.closed g err).not.mpr (h.closed g err)⟩
  · rcases ha.pc g' with hpc | ⟨_, _, hpc, _⟩
    · rw [hpc]
      exact h.read g'
    · exact hpc
  · rcases ha.pc g' with hpc | ⟨_, _, _, hpc⟩
    · exact h.await g' d (hpc ▸ hd)
    · rw [(hpc d hd).2, h.closeDone]
  · rcases ha.pc g with hpc | ⟨hpc, _⟩
    · rw [hpc]
      exact h.reached.congr ha.connClosed (ha.quiet h.closeStarted)
    · rw [h.calls g, if_pos rfl] at hpc
      cases hpc

omit [DecidableEq G] in
/-- After the call such a step leaves its result as it is. -/
theorem Over.apart {d : Nat} (h : Over r a d) (ha : Apart a a') : Over r a' d := by
  refine ⟨ha.closeStarted.trans h.closeStarted, ha.closeDone.trans h.closeDone,
    (ha.shut _ h.closeDone).mpr h.shut, ?_, fun g => (ha.calls g).trans (h.calls g),
    fun g d' hd => ?_, ha.quiet h.closeStarted h.quiet, fun hr => ?_, fun g err hclosed => ?_⟩
  · rw [ha.backgroundDone h.closeStarted h.backgroundDone]
    exact h.backgroundDone
  · rcases ha.pc g with hpc | ⟨_, _, _, hpc⟩
    · exact h.await g d' (hpc ▸ hd)
    · rw [(hpc d' hd).2, h.closeDone]
  · rw [ha.closeErr, ha.connClosed]
    exact h.connClosed hr
  · rw [ha.closeErr]
    exact h.closed g err ((ha.closed g err).mp hclosed)

/-- So it keeps the stage. -/
theorem Shutdown.apart (h : Shutdown r a) (ha : Apart a a') : Shutdown r a' := by
  cases h with
  | unclosed h => exact .unclosed (h.apart ha)
  | under g call h => exact .under g call (h.apart ha)
  | done d h => exact .done d (h.apart ha)

omit [DecidableEq G] in
theorem Apart.trans {a'' : Application G E} (h : Apart a a') (h' : Apart a' a'') :
    Apart a a'' := by
  constructor <;> grind [Apart]

omit [DecidableEq G] in
/-- A step that touches nothing of it. -/
theorem Apart.of_eq (hclose : a'.closeStarted = a.closeStarted) (hdone : a'.closeDone = a.closeDone)
    (herr : a'.closeErr = a.closeErr) (hback : a'.backgroundDone = a.backgroundDone)
    (hshut : a'.closedChannels = a.closedChannels) (hpc : a'.pc = a.pc) (hlog : a'.log = a.log) :
    Apart a a' where
  closeStarted := hclose
  closeDone := hdone
  closeErr := herr
  backgroundDone _ _ := hback
  shut _ _ := by rw [hshut]
  pc g := Or.inl (by rw [hpc])
  connClosed _ := by rw [hlog]
  closed _ _ := by rw [hlog]
  quiet _ h := by rwa [hlog]

/-- A goroutine that comes to wait for a call of `Close`, or to a place that is no part of one. -/
theorem apart_await {pc : Pc E} (hcall : call? (a.pc g) = none) (hcall' : call? pc = none)
    (hread : pc ≠ .read) (hawait : ∀ d, pc = .await d → a.closeStarted = true ∧ d = a.closeDone) :
    Apart a (a.enter g pc) := by
  refine ⟨rfl, rfl, rfl, fun _ _ => rfl, fun _ _ => Iff.rfl, fun g' => ?_, fun _ => Iff.rfl,
    fun _ _ => Iff.rfl, fun _ => id⟩
  rw [pc_enter]
  split
  next h => exact Or.inr ⟨h ▸ hcall, hcall', hread, hawait⟩
  next => exact Or.inl rfl

/-- A goroutine that is in no `Close` goes where none is. -/
theorem apart_enter {p : Pc E} (hcall : call? (a.pc g) = none) (hp : outside p = true) :
    Apart a (a.enter g p) := by
  refine apart_await hcall ?_ (fun h => by rw [h] at hp; cases hp) fun d h => by
    rw [h] at hp
    cases hp
  cases p with
  | once call => cases call with | none => rfl | some call => cases hp
  | closer call => cases call with | none => rfl | some call => cases hp
  | idle => rfl
  | launching _ _ => rfl
  | _ => cases hp

omit [DecidableEq G] in
/-- A mark that is no start leaves every runner returned. -/
theorem Quiet.snoc {log : List (Mark G E)} (h : Quiet log) {m : Mark G E}
    (hm : ∀ i, m ≠ .started i) : Quiet (log ++ [m]) := by
  intro i hi
  rcases List.mem_append.mp hi with hi | hi
  · exact List.mem_append_left _ (h i hi)
  · exact absurd (List.mem_singleton.mp hi).symm (hm i)

omit [DecidableEq G] in
/-- A mark that is no part of a `Close`. A start is none before the first one begins. -/
theorem apart_started {m : Mark G E} (hconn : ∀ err, m ≠ .connClosed err)
    (hclosed : ∀ g err, m ≠ .closed g err) (hquiet : a.closeStarted = true → ∀ i, m ≠ .started i) :
    Apart a (a.mark m) := by
  refine ⟨rfl, rfl, rfl, fun _ _ => rfl, fun _ _ => Iff.rfl, fun _ => Or.inl rfl, fun err => ?_,
    fun g err => ?_, fun hclose h => h.snoc (hquiet hclose)⟩
  · show _ ∈ a.log ++ [m] ↔ _
    rw [List.mem_append, List.mem_singleton]
    exact or_iff_left fun h => hconn err h.symm
  · show _ ∈ a.log ++ [m] ↔ _
    rw [List.mem_append, List.mem_singleton]
    exact or_iff_left fun h => hclosed g err h.symm

omit [DecidableEq G] in
/-- A mark that the stages do not read. -/
theorem apart_mark {m : Mark G E} (hm : neutral m = true) : Apart a (a.mark m) := by
  refine apart_started ?_ ?_ fun _ => ?_
  · rintro err rfl
    cases hm
  · rintro g err rfl
    cases hm
  · rintro i rfl
    cases hm

/-! ## Steps of the call that closes -/

/-- Who is in the call that closes is in it alone. -/
theorem Shutdown.caller (h : Shutdown r a) {call : Closing} (hpc : call? (a.pc g) = some call) :
    Under r a g call := by
  cases h with
  | unclosed h => rw [h.calls g] at hpc; cases hpc
  | done d h => rw [h.calls g] at hpc; cases hpc
  | under g' call' h =>
    rw [h.calls g] at hpc
    split at hpc
    next heq =>
      cases hpc
      exact heq ▸ h
    next => cases hpc

/-- What the place of the call that closes says. -/
theorem Shutdown.inCall (h : Shutdown r a) {p : Pc E} {call : Closing} (hpc : a.pc g = p)
    (hcall : call? p = some call) : Under r a g call ∧ Reached r a.log p := by
  have hu := h.caller (hpc ▸ hcall)
  exact ⟨hu, hpc ▸ hu.reached⟩

/-- It gets on, and the log says no more than that the database is closed. -/
theorem Under.advance_log {call : Closing} (h : Under r a g call) {pc : Pc E}
    {log : List (Mark G E)} (hpc : call? pc = some call)
    (hlog : ∀ g err, .closed g err ∈ log → .closed g err ∈ a.log)
    (hreached : Reached r log pc) : Under r { a.enter g pc with log := log } g call := by
  have hpc' : ∀ g', ({ a.enter g pc with log := log } : Application G E).pc g' =
      if g' = g then pc else a.pc g' := fun g' => pc_enter g' pc
  refine ⟨h.closeStarted, h.closeDone, h.opened, h.backgroundDone, h.done, fun g' => ?_,
    fun g' => ?_, fun g' d => ?_, ?_, fun g' err hm => h.closed g' err (hlog g' err hm)⟩
  · rw [hpc']
    split
    next => exact hpc
    next hne => rw [h.calls g', if_neg hne]
  · rw [hpc']
    split
    next => intro heq; rw [heq] at hpc; cases hpc
    next => exact h.read g'
  · rw [hpc']
    split
    next => intro heq; rw [heq] at hpc; cases hpc
    next => exact h.await g' d
  · rw [hpc', if_pos rfl]
    exact hreached

theorem Under.advance {call : Closing} (h : Under r a g call) {pc : Pc E}
    (hpc : call? pc = some call) (hreached : Reached r a.log pc) :
    Under r (a.enter g pc) g call :=
  h.advance_log hpc (fun _ _ => id) hreached

/-- `closeStreams` is over, for `Close` or for another caller. -/
theorem Shutdown.afterStreams (h : Shutdown r a) {c : Option Closing}
    (hpc : call? (a.pc g) = c)
    (hreached : Reached r a.log (a.pc g) → ∀ err, .connClosed err ∉ a.log) :
    Shutdown r (a.enter g (afterStreams c)) := by
  cases c with
  | none => exact h.apart (apart_enter hpc rfl)
  | some call =>
    have hu := h.caller hpc
    exact .under g call (hu.advance rfl (hreached hu.reached))

/-- The first goroutine at `closeStarted` is the one that closes. -/
theorem Unclosed.closing (h : Unclosed a) (hn : Numbered a) : Shutdown r (a.close g) := by
  have hpc : ∀ pc g', (a.setClose.enter g pc).pc g' = if g' = g then pc else a.pc g' :=
    fun pc g' => (pc_enter g' pc).trans (by rw [setClose, orAlreadyDone_pc])
  have hlog : ∀ m ∈ a.setClose.log ++ [.closing g], m ∈ a.log ∨ m = .closing g := fun m hm => by
    rwa [setClose, orAlreadyDone_log, List.mem_append, List.mem_singleton] at hm
  rw [close_eq h.closeStarted]
  refine .under g ⟨a.backgroundCancel, a.setClose.backgroundDone, a.made⟩
    ⟨orAlreadyDone_closeStarted, orAlreadyDone_closeDone, fun hd => ?_, rfl,
      orAlreadyDone_ne_none, fun g' => ?_, fun g' => ?_, fun g' d hd => ?_, ?_, fun g' err hm => ?_⟩
  · rcases mem_orAlreadyDone hd with hd | hd
    · exact Nat.lt_irrefl _ (hn.closed _ hd)
    · exact Nat.succ_ne_self _ hd.symm
  · show call? ((a.setClose.enter g _).pc g') = _
    rw [hpc]
    split
    next => rfl
    next => exact h.calls g'
  · show (a.setClose.enter g _).pc g' ≠ _
    rw [hpc]
    split
    next => exact fun h => by cases h
    next => exact h.read g'
  · change (a.setClose.enter g _).pc g' = _ at hd
    rw [hpc] at hd
    split at hd
    next => cases hd
    next => exact absurd hd (h.await g' d)
  · show Reached r _ ((a.setClose.enter g _).pc g)
    rw [hpc, if_pos rfl]
    intro err hm
    rcases hlog _ hm with hm | hm
    · exact h.connClosed err hm
    · cases hm
  · rcases hlog _ hm with hm | hm
    · exact h.closed g' err hm
    · cases hm

/-- The database is closed. -/
theorem Under.conn {call : Closing} (h : Under r a g call) (hquiet : Quiet a.log)
    (err : Option E) :
    Under r ((a.enter g (.publish call err)).mark (.connClosed err)) g call := by
  refine h.advance_log rfl (fun g' err' hm => ?_) ⟨hquiet.snoc fun _ h => (by cases h),
    fun _ => List.mem_append_right _ List.mem_cons_self⟩
  rcases List.mem_append.mp hm with hm | hm
  · exact hm
  · cases List.mem_singleton.mp hm

/-- The call that closes returns. -/
theorem Under.publish {call : Closing} (h : Under r a g call) {err : Option E}
    (hpc : a.pc g = .publish call err) :
    Over r (({ a with
      closeErr := err
      closedChannels := a.closedChannels ++ [call.closeDone] }.enter g .idle).mark (.closed g err))
      call.closeDone := by
  have hreached := h.reached
  rw [hpc] at hreached
  refine ⟨h.closeStarted, h.closeDone, List.mem_append_right _ List.mem_cons_self, ?_,
    fun g' => ?_, fun g' d hd => ?_, hreached.1.snoc fun i h => (by cases h),
    fun hr => List.mem_append_left _ (hreached.2 hr), fun g' err' hm => ?_⟩
  · show a.backgroundDone ≠ none
    rw [h.backgroundDone]
    exact h.done
  · show call? (Function.update a.pc g .idle g') = _
    rw [Function.update_apply]
    split
    next => rfl
    next hne => rw [h.calls, if_neg hne]
  · change Function.update a.pc g .idle g' = _ at hd
    rw [Function.update_apply] at hd
    split at hd
    next => cases hd
    next => exact h.await g' d hd
  · rcases List.mem_append.mp hm with hm | hm
    · exact absurd hm (h.closed g' err')
    · cases List.mem_singleton.mp hm
      rfl

/-- A goroutine that waited for it goes on. -/
theorem Over.enter {d : Nat} (h : Over r a d) {pc : Pc E} (hpc : call? pc = none)
    (hawait : ∀ d, pc ≠ .await d) : Over r (a.enter g pc) d := by
  refine ⟨h.closeStarted, h.closeDone, h.shut, h.backgroundDone, fun g' => ?_, fun g' d' => ?_,
    h.quiet, h.connClosed, h.closed⟩
  · rw [pc_enter]
    split
    next => exact hpc
    next => exact h.calls g'
  · rw [pc_enter]
    split
    next => exact fun h => absurd h (hawait d')
    next => exact h.await g' d'

/-- Who has waited returns the error that the call has stored. -/
theorem Over.read {d : Nat} (h : Over r a d) :
    Over r ((a.enter g .idle).mark (.closed g a.closeErr)) d := by
  have h : Over r (a.enter g .idle) d := h.enter rfl (fun _ h => by cases h)
  refine ⟨h.closeStarted, h.closeDone, h.shut, h.backgroundDone, h.calls, h.await,
    h.quiet.snoc fun _ h => (by cases h), fun hr => List.mem_append_left _ (h.connClosed hr),
    fun g' err hm => ?_⟩
  rcases List.mem_append.mp hm with hm | hm
  · exact h.closed g' err hm
  · cases List.mem_singleton.mp hm
    rfl

/-- Whoever waits on a closed channel has waited for the call's own. -/
theorem Shutdown.awaited (h : Shutdown r a) {d : Nat} (hpc : a.pc g = .await (some d))
    (hd : d ∈ a.closedChannels) : Over r a d := by
  cases h with
  | unclosed h => exact absurd hpc (h.await g _)
  | under g' call h =>
    cases h.await g _ hpc
    exact absurd hd h.opened
  | done d' h =>
    cases h.await g _ hpc
    exact h

theorem Shutdown.reading (h : Shutdown r a) (hpc : a.pc g = .read) : ∃ d, Over r a d := by
  cases h with
  | unclosed h => exact absurd hpc (h.read g)
  | under g' call h => exact absurd hpc (h.read g)
  | done d h => exact ⟨d, h⟩

/-- The completion channel is closed once every runner that was started has returned. -/
theorem Startup.quiet (hs : Startup a) (hl : Logged a) {d : Nat} (hdone : a.backgroundDone = some d)
    (hd : d ∈ a.closedChannels) : Quiet a.log := by
  intro i hi
  obtain ⟨p, hp, hidle⟩ := (hl.started i).mp hi
  have hmem : p ∈ a.runners := List.mem_of_getElem? hp
  cases hs with
  | unbegun h => exact absurd (h.runners p hmem) hidle
  | launching g i d h => rw [h.backgroundDone] at hdone; cases hdone
  | running d' h =>
    rw [h.backgroundDone] at hdone
    cases hdone
    exact absurd hd h.opened
  | finished d' h => exact hl.returned i (h.runners p hmem ▸ hp)

omit [DecidableEq G] in
theorem Apart.orAlreadyDone (hn : Numbered a) : Apart a a.orAlreadyDone := by
  cases hdone : a.backgroundDone with
  | some d =>
    rw [orAlreadyDone_of_some hdone]
    exact .of_eq rfl rfl rfl rfl rfl rfl rfl
  | none =>
    rw [orAlreadyDone_of_none hdone]
    refine ⟨rfl, rfl, rfl, fun _ h => absurd hdone h, fun d hd => ?_, fun _ => Or.inl rfl,
      fun _ => Iff.rfl, fun _ _ => Iff.rfl, fun _ => id⟩
    show d ∈ a.closedChannels ++ [a.made] ↔ _
    rw [List.mem_append, List.mem_singleton]
    exact or_iff_left fun heq => Nat.lt_irrefl _ (heq ▸ (hn.closeDone d hd).1)

/-! ## Every step -/

/-- `startBackground` starts. -/
private theorem apart_begin (hpc : a.pc g = .idle) :
    Apart a (({ a with
      lifecycleMu := some g
      backgroundStarted := true
      backgroundCancel := true
      made := a.made + 1 }.enter g (.launching 0 a.made)).mark (.begun a.made)) := by
  have hbegun : Apart a ((a.enter g (.launching 0 a.made)).mark (.begun a.made)) :=
    (apart_enter (by rw [hpc]; rfl) rfl).trans (apart_mark rfl)
  exact hbegun.trans (.of_eq rfl rfl rfl rfl rfl rfl rfl)

/-- A runner is started; the lock keeps `Close` from having begun. -/
private theorem apart_launch {i d : Nat} (hpc : a.pc g = .launching i d)
    (hclose : a.closeStarted = false) :
    Apart a (({ a with runners := a.runners.set i .launched }.enter g
      (.launching (i + 1) d)).mark (.started i)) := by
  have hlaunch : Apart a (a.enter g (.launching (i + 1) d)) := apart_enter (by rw [hpc]; rfl) rfl
  have hstarted := apart_started (a := a.enter g (.launching (i + 1) d)) (m := .started i)
    (fun _ h => by cases h) (fun _ _ h => by cases h)
    (fun h => absurd (hclose.symm.trans h) Bool.false_ne_true)
  exact (hlaunch.trans hstarted).trans (.of_eq rfl rfl rfl rfl rfl rfl rfl)

/-- `RunBackground` returns with the completion channel. -/
private theorem apart_launched {i d : Nat} (hpc : a.pc g = .launching i d)
    (hclose : a.closeStarted = false) :
    Apart a (({ a with lifecycleMu := none, backgroundDone := some d, waiter := some d }.enter g
      .idle).mark (.background g (some d))) := by
  have hidle : Apart a ((a.enter g .idle).mark (.background g (some d))) :=
    (apart_enter (by rw [hpc]; rfl) rfl).trans (apart_mark rfl)
  exact hidle.trans ⟨rfl, rfl, rfl, fun h => absurd (hclose.symm.trans h) Bool.false_ne_true,
    fun _ _ => Iff.rfl, fun _ => Or.inl rfl, fun _ => Iff.rfl, fun _ _ => Iff.rfl, fun _ => id⟩

omit [DecidableEq G] in
/-- The last goroutine of `startBackground` closes the completion channel, which no `Close` waits
for under `closeDone`. -/
private theorem apart_finish {d : Nat} (hn : Numbered a) (hback : a.backgroundDone = some d) :
    Apart a { a with waiter := none, closedChannels := a.closedChannels ++ [d] } := by
  refine ⟨rfl, rfl, rfl, fun _ _ => rfl, fun d' hd' => ?_, fun _ => Or.inl rfl,
    fun _ => Iff.rfl, fun _ _ => Iff.rfl, fun _ => id⟩
  show d' ∈ a.closedChannels ++ [d] ↔ _
  rw [List.mem_append, List.mem_singleton]
  exact or_iff_left fun heq => (hn.closeDone d' hd').2 (heq ▸ hback)

/-- The first caller of `closeStreams` calls `streams.Close`, whether it is in a `Close` or not. -/
private theorem Shutdown.closeStreams (h : Shutdown r a) {call : Option Closing}
    (hpc : a.pc g = .once call) (honce : a.streamsCloseOnce = .unused) :
    Shutdown r (a.closeStreams r g call) := by
  rw [Application.closeStreams, honce]
  have hcloser : Shutdown r (a.enter g (.closer call)) := by
    cases call with
    | none => exact h.apart (apart_enter (by rw [hpc]; rfl) rfl)
    | some call =>
      obtain ⟨hu, hreached⟩ := h.inCall hpc rfl
      exact .under g call (hu.advance rfl hreached)
  have hset : Shutdown r { a.enter g (.closer call) with streamsCloseOnce := .running } :=
    hcloser.apart (.of_eq rfl rfl rfl rfl rfl rfl rfl)
  show Shutdown r (if r.streams then _ else _)
  split
  next => exact hset.apart (apart_mark rfl)
  next => exact hset

/-- **Every step keeps closing in one of its stages.** -/
theorem Shutdown.move (h : Shutdown r a) (hs : Startup a) (hn : Numbered a) (hl : Logged a)
    (hm : Move r a a') : Shutdown r a' := by
  cases hm with
  | refuse g => exact h.apart ((Apart.orAlreadyDone hn).trans (apart_mark rfl))
  | again g => exact h.apart (apart_mark rfl)
  | begin g hpc => exact h.apart (apart_begin hpc)
  | launch g i d hpc => exact h.apart (apart_launch hpc (hs.loop hpc).closeStarted)
  | launched g i d hpc => exact h.apart (apart_launched hpc (hs.loop hpc).closeStarted)
  | await g hpc hmu hclose =>
    refine h.apart (apart_await (by rw [hpc]; rfl) rfl (fun h => by cases h) fun d hd => ?_)
    cases hd
    exact ⟨hclose, rfl⟩
  | closing g hpc hmu hclose =>
    cases h with
    | unclosed h => exact h.closing hn
    | under g' call h => exact absurd (hclose.symm.trans h.closeStarted) Bool.false_ne_true
    | done d h => exact absurd (hclose.symm.trans h.closeStarted) Bool.false_ne_true
  | shutdown g hpc => exact h.apart (apart_enter (by rw [hpc]; rfl) rfl)
  | streams g call hpc honce => exact h.closeStreams hpc honce
  | skip g call hpc =>
    exact h.afterStreams (by rw [hpc]; rfl) fun hreached => by rwa [hpc] at hreached
  | closer g call hpc =>
    have h := h.afterStreams (c := call) (by rw [hpc]; rfl)
      fun hreached => by rwa [hpc] at hreached
    exact h.apart (.of_eq rfl rfl rfl rfl rfl rfl rfl)
  | cancel g call hpc =>
    obtain ⟨hu, hreached⟩ := h.inCall hpc rfl
    have h : Shutdown r (a.enter g (.wait call)) := .under g call (hu.advance rfl hreached)
    split
    next => exact h.apart (apart_mark rfl)
    next => exact h
  | wait g call d hpc hdone hd =>
    obtain ⟨hu, hreached⟩ := h.inCall hpc rfl
    have hquiet := hs.quiet hl (hu.backgroundDone.trans hdone) hd
    exact .under g call (hu.advance rfl ⟨hquiet, hreached⟩)
  | conn g call err hpc =>
    obtain ⟨hu, hreached⟩ := h.inCall hpc rfl
    exact .under g call (hu.conn hreached.1 err)
  | noConn g call hpc hr =>
    obtain ⟨hu, hreached⟩ := h.inCall hpc rfl
    exact .under g call (hu.advance rfl ⟨hreached.1, fun h => by rw [hr] at h; cases h⟩)
  | publish g call err hpc => exact .done _ ((h.inCall hpc rfl).1.publish hpc)
  | awaited g d hpc hd => exact .done d ((h.awaited hpc hd).enter rfl (fun _ h => by cases h))
  | read g hpc =>
    obtain ⟨d, h⟩ := h.reading hpc
    exact .done d h.read
  | run i => exact h.apart (.of_eq rfl rfl rfl rfl rfl rfl rfl)
  | returned i =>
    have h := h.apart (apart_mark (m := .returned i) rfl)
    exact h.apart (.of_eq rfl rfl rfl rfl rfl rfl rfl)
  | finish d hwaiter => exact h.apart (apart_finish hn (hs.waiter hwaiter).backgroundDone)

end TinyProbe.App.Application
