import TinyProbe.App.Lifecycle

/-!
# How far the background is

The background has four stages (`Startup`): not begun, in the loop of `startBackground`, running, and
finished with its completion channel closed. Only `RunBackground` takes it from the first to the
second, under the lock and only while `closeStarted` is false, so `Close` finds it in one of the
other three. A step that does not touch it is `Aside`.

Three smaller invariants go with it: the channels are numbered in the order they are made
(`Numbered`), the log says which runners were started and have returned (`Logged`), and whether the
stream closer was called is up to `streamsCloseOnce` (`Streamed`).
-/

namespace TinyProbe.App.Application

variable {G E : Type} [DecidableEq G] {r : Runtime} {a a' : Application G E} {g : G}

/-! ## The stages -/

/-- How far the goroutine is in the loop of `startBackground`, and the channel it has made. -/
def launching? : Pc E → Option (Nat × Nat)
  | .launching i d => some (i, d)
  | _ => none

/-- No `RunBackground` has got past `closeStarted`. -/
structure Unbegun (a : Application G E) : Prop where
  lifecycleMu : a.lifecycleMu = none
  launching : ∀ g, launching? (a.pc g) = none
  backgroundStarted : a.backgroundStarted = false
  backgroundDone : a.closeStarted = false → a.backgroundDone = none
  waiter : a.waiter = none
  runners : ∀ p ∈ a.runners, p = .idle
  begun : ∀ d, .begun d ∉ a.log

/-- Goroutine `g` has launched `i` runners. -/
structure Launching (a : Application G E) (g : G) (i d : Nat) : Prop where
  lifecycleMu : a.lifecycleMu = some g
  launching : ∀ g', launching? (a.pc g') = if g' = g then some (i, d) else none
  backgroundStarted : a.backgroundStarted = true
  closeStarted : a.closeStarted = false
  backgroundDone : a.backgroundDone = none
  waiter : a.waiter = none
  runners : ∀ p ∈ a.runners.drop i, p = .idle
  made : d < a.made
  opened : d ∉ a.closedChannels
  begun : ∀ d', .begun d' ∈ a.log ↔ d' = d

structure Running (a : Application G E) (d : Nat) : Prop where
  lifecycleMu : a.lifecycleMu = none
  launching : ∀ g, launching? (a.pc g) = none
  backgroundStarted : a.backgroundStarted = true
  backgroundDone : a.backgroundDone = some d
  waiter : a.waiter = some d
  opened : d ∉ a.closedChannels
  begun : ∀ d', .begun d' ∈ a.log ↔ d' = d

structure Finished (a : Application G E) (d : Nat) : Prop where
  lifecycleMu : a.lifecycleMu = none
  launching : ∀ g, launching? (a.pc g) = none
  backgroundStarted : a.backgroundStarted = true
  backgroundDone : a.backgroundDone = some d
  waiter : a.waiter = none
  runners : ∀ p ∈ a.runners, p = .returned
  begun : ∀ d', .begun d' ∈ a.log ↔ d' = d

inductive Startup (a : Application G E) : Prop
  | unbegun (h : Unbegun a)
  | launching (g : G) (i d : Nat) (h : Launching a g i d)
  | running (d : Nat) (h : Running a d)
  | finished (d : Nat) (h : Finished a d)

/-! ## Steps that leave the background alone -/

/-- The step leaves the background alone. A channel it closes is not that of the background. -/
structure Aside (a a' : Application G E) : Prop where
  lifecycleMu : a'.lifecycleMu = a.lifecycleMu
  backgroundStarted : a'.backgroundStarted = a.backgroundStarted
  backgroundDone : a'.backgroundDone = a.backgroundDone
  closeStarted : a'.closeStarted = a.closeStarted
  runners : a'.runners = a.runners
  waiter : a'.waiter = a.waiter
  made : a.made ≤ a'.made
  launching : ∀ g, launching? (a'.pc g) = launching? (a.pc g)
  begun : ∀ d, .begun d ∈ a'.log ↔ .begun d ∈ a.log
  closed : ∀ d ∈ a'.closedChannels, d ∉ a.closedChannels →
    a.lifecycleMu = none ∧ a.backgroundDone ≠ some d

/-- A step that is no part of starting or ending the runners keeps the stage. -/
theorem Startup.aside (h : Startup a) (ha : Aside a a') : Startup a' := by
  cases h with
  | unbegun h =>
    refine .unbegun ⟨?_, ?_, ?_, ?_, ?_, ?_, ?_⟩ <;> grind [Unbegun, Aside]
  | launching g i d h =>
    refine .launching g i d ⟨?_, ?_, ?_, ?_, ?_, ?_, ?_, ?_, ?_, ?_⟩ <;> grind [Launching, Aside]
  | running d h =>
    refine .running d ⟨?_, ?_, ?_, ?_, ?_, ?_, ?_⟩ <;> grind [Running, Aside]
  | finished d h =>
    refine .finished d ⟨?_, ?_, ?_, ?_, ?_, ?_, ?_⟩ <;> grind [Finished, Aside]

omit [DecidableEq G] in
private theorem Aside.trans {a'' : Application G E} (h : Aside a a') (h' : Aside a' a'') :
    Aside a a'' where
  lifecycleMu := h'.lifecycleMu.trans h.lifecycleMu
  backgroundStarted := h'.backgroundStarted.trans h.backgroundStarted
  backgroundDone := h'.backgroundDone.trans h.backgroundDone
  closeStarted := h'.closeStarted.trans h.closeStarted
  runners := h'.runners.trans h.runners
  waiter := h'.waiter.trans h.waiter
  made := Nat.le_trans h.made h'.made
  launching g := (h'.launching g).trans (h.launching g)
  begun d := (h'.begun d).trans (h.begun d)
  closed d hd hnd := by
    by_cases hmem : d ∈ a'.closedChannels
    · exact h.closed d hmem hnd
    · have := h'.closed d hd hmem
      rwa [h.lifecycleMu, h.backgroundDone] at this

omit [DecidableEq G] in
private theorem aside_once (once : Once) : Aside a { a with streamsCloseOnce := once } :=
  ⟨rfl, rfl, rfl, rfl, rfl, rfl, Nat.le_refl _, fun _ => rfl, fun _ => Iff.rfl,
    fun _ hd hnd => absurd hd hnd⟩

/-- A goroutine that is not in the loop goes to a place that is not in it either. -/
theorem aside_enter {p : Pc E} (hpc : launching? (a.pc g) = none) (hpc' : launching? p = none) :
    Aside a (a.enter g p) := by
  refine ⟨rfl, rfl, rfl, rfl, rfl, rfl, Nat.le_refl _, fun g' => ?_, fun _ => Iff.rfl,
    fun _ hd hnd => absurd hd hnd⟩
  rw [pc_enter]
  split
  next h => rw [hpc', h, hpc]
  next => rfl

omit [DecidableEq G] in
/-- A mark that is not about the beginning. -/
theorem aside_mark {m : Mark G E} (hm : ∀ d, m ≠ .begun d) : Aside a (a.mark m) := by
  refine ⟨rfl, rfl, rfl, rfl, rfl, rfl, Nat.le_refl _, fun _ => rfl, fun d => ?_,
    fun _ hd hnd => absurd hd hnd⟩
  show .begun d ∈ a.log ++ [m] ↔ _
  rw [List.mem_append, List.mem_singleton]
  exact or_iff_left fun h => hm d h.symm

private theorem launching?_afterStreams (call : Option Closing) :
    launching? (afterStreams call : Pc E) = none := by
  cases call with
  | none => rfl
  | some call => rfl

/-! ## Steps of the background -/

/-- A goroutine in the loop is the one that has the lock. -/
theorem Startup.loop (h : Startup a) {i d : Nat} (hpc : a.pc g = .launching i d) :
    Launching a g i d := by
  have hl : launching? (a.pc g) = some (i, d) := by rw [hpc]; rfl
  cases h with
  | unbegun h => rw [h.launching g] at hl; cases hl
  | running d' h => rw [h.launching g] at hl; cases hl
  | finished d' h => rw [h.launching g] at hl; cases hl
  | launching g' i' d' h =>
    rw [h.launching g] at hl
    split at hl
    next heq =>
      cases hl
      exact heq ▸ h
    next => cases hl

/-- Without the lock nobody is in the loop. -/
theorem Startup.free (h : Startup a) (hmu : a.lifecycleMu = none) :
    Unbegun a ∨ ∃ d, a.backgroundDone = some d ∧ a.backgroundStarted = true ∧
      ∀ d', .begun d' ∈ a.log ↔ d' = d := by
  cases h with
  | unbegun h => exact Or.inl h
  | launching g i d h => rw [h.lifecycleMu] at hmu; cases hmu
  | running d h => exact Or.inr ⟨d, h.backgroundDone, h.backgroundStarted, h.begun⟩
  | finished d h => exact Or.inr ⟨d, h.backgroundDone, h.backgroundStarted, h.begun⟩

/-- The goroutine that waits for the runners does so only while they are the ones started. -/
theorem Startup.waiter (h : Startup a) {d : Nat} (hwaiter : a.waiter = some d) : Running a d := by
  cases h with
  | unbegun h => rw [h.waiter] at hwaiter; cases hwaiter
  | launching g i d h => rw [h.waiter] at hwaiter; cases hwaiter
  | running d' h =>
    rw [h.waiter] at hwaiter
    cases hwaiter
    exact h
  | finished d h => rw [h.waiter] at hwaiter; cases hwaiter

/-- The first `RunBackground` takes the lock and begins to start the runners. -/
theorem Unbegun.begin (h : Unbegun a) (hmade : a.made ∉ a.closedChannels)
    (hclose : a.closeStarted = false) :
    Startup (({ a with
      lifecycleMu := some g
      backgroundStarted := true
      backgroundCancel := true
      made := a.made + 1 }.enter g (.launching 0 a.made)).mark (.begun a.made)) := by
  refine .launching g 0 a.made ⟨rfl, fun g' => ?_, rfl, hclose, h.backgroundDone hclose, h.waiter,
    h.runners, Nat.lt_succ_self _, hmade, fun d' => ?_⟩
  · show launching? (Function.update a.pc g (.launching 0 a.made) g') = _
    rw [Function.update_apply]
    split
    next => rfl
    next => exact h.launching g'
  · show .begun d' ∈ a.log ++ [.begun a.made] ↔ _
    rw [List.mem_append, List.mem_singleton, Mark.begun.injEq, or_iff_right (h.begun d')]

/-- The next runner is started; all before it have been, and none after it. -/
theorem Launching.launch {i d : Nat} (h : Launching a g i d) :
    Startup (({ a with runners := a.runners.set i .launched }.enter g
      (.launching (i + 1) d)).mark (.started i)) := by
  refine .launching g (i + 1) d ⟨h.lifecycleMu, fun g' => ?_, h.backgroundStarted, h.closeStarted,
    h.backgroundDone, h.waiter, ?_, h.made, h.opened, fun d' => ?_⟩
  · have := h.launching g'
    show launching? (Function.update a.pc g (.launching (i + 1) d) g') = _
    rw [Function.update_apply]
    split
    next => rfl
    next hne => rwa [if_neg hne] at this
  · show ∀ p ∈ (a.runners.set i .launched).drop (i + 1), p = .idle
    rw [List.drop_set_of_lt (Nat.lt_succ_self i)]
    exact fun p hp => h.runners p (List.drop_subset_drop_left _ (Nat.le_succ i) hp)
  · rw [← h.begun d']
    show .begun d' ∈ a.log ++ [.started i] ↔ _
    simp only [List.mem_append, List.mem_singleton, reduceCtorEq, or_false]

/-- When all are started, the completion channel is published and somebody waits for them. -/
theorem Launching.launched {i d : Nat} (h : Launching a g i d) :
    Startup (({ a with
      lifecycleMu := none, backgroundDone := some d, waiter := some d }.enter g
      .idle).mark (.background g (some d))) := by
  refine .running d ⟨rfl, fun g' => ?_, h.backgroundStarted, rfl, rfl, h.opened, fun d' => ?_⟩
  · have := h.launching g'
    show launching? (Function.update a.pc g .idle g') = _
    rw [Function.update_apply]
    split
    next => rfl
    next hne => rwa [if_neg hne] at this
  · rw [← h.begun d']
    show .begun d' ∈ a.log ++ [.background g (some d)] ↔ _
    simp only [List.mem_append, List.mem_singleton, reduceCtorEq, or_false]

/-- A runner that has been launched moves on. -/
theorem Startup.runner (h : Startup a) {i : Nat} {p p' : Runner} (hp : a.runners[i]? = some p)
    (hidle : p ≠ .idle) (hreturned : p ≠ .returned) :
    Startup { a with runners := a.runners.set i p' } := by
  have hmem : p ∈ a.runners := List.mem_of_getElem? hp
  cases h with
  | unbegun h => exact absurd (h.runners p hmem) hidle
  | launching g j d h =>
    have hij : i < j := by
      by_contra hij
      refine hidle (h.runners p (List.mem_of_getElem? (i := i - j) ?_))
      rw [List.getElem?_drop, Nat.add_sub_of_le (Nat.le_of_not_lt hij), hp]
    refine .launching g j d ⟨h.lifecycleMu, h.launching, h.backgroundStarted, h.closeStarted,
      h.backgroundDone, h.waiter, ?_, h.made, h.opened, h.begun⟩
    show ∀ p ∈ (a.runners.set i p').drop j, p = .idle
    rw [List.drop_set_of_lt hij]
    exact h.runners
  | running d h => exact .running d ⟨h.1, h.2, h.3, h.4, h.5, h.6, h.7⟩
  | finished d h => exact absurd (h.runners p hmem) hreturned

/-- When every runner has returned, the completion channel is closed. -/
theorem Running.finish {d : Nat} (h : Running a d) (hrunners : ∀ p ∈ a.runners, p = .returned) :
    Startup { a with waiter := none, closedChannels := a.closedChannels ++ [d] } :=
  .finished d ⟨h.lifecycleMu, h.launching, h.backgroundStarted, h.backgroundDone, rfl, hrunners,
    h.begun⟩

/-- Once `closeStarted` is set, nobody minds a completion channel that never was. -/
theorem Startup.orAlreadyDone (h : Startup a) (hmu : a.lifecycleMu = none)
    (hclose : a.closeStarted = true) : Startup a.orAlreadyDone := by
  rcases h.free hmu with hu | ⟨d, hdone, _⟩
  · cases hdone : a.backgroundDone with
    | some d => rwa [orAlreadyDone_of_some hdone]
    | none =>
      rw [orAlreadyDone_of_none hdone]
      exact .unbegun ⟨hu.1, hu.2, hu.3, fun h => absurd (hclose.symm.trans h) Bool.noConfusion,
        hu.5, hu.6, hu.7⟩
  · rwa [orAlreadyDone_of_some hdone]

/-- `Close` begins, and the background is as far as it was. -/
theorem Startup.setClose (h : Startup a) (hmu : a.lifecycleMu = none) : Startup a.setClose := by
  have hset : Startup { a with
      closeStarted := true, closeDone := some a.made, made := a.made + 1 } := by
    cases h with
    | unbegun h => exact .unbegun ⟨h.1, h.2, h.3, fun h => (by cases h), h.5, h.6, h.7⟩
    | launching g i d h => rw [h.lifecycleMu] at hmu; cases hmu
    | running d h => exact .running d ⟨h.1, h.2, h.3, h.4, h.5, h.6, h.7⟩
    | finished d h => exact .finished d ⟨h.1, h.2, h.3, h.4, h.5, h.6, h.7⟩
  exact hset.orAlreadyDone hmu rfl

/-- **Every step keeps the background in one of its stages.** -/
theorem Startup.move (h : Startup a) (hmade : a.made ∉ a.closedChannels)
    (hdistinct : ∀ g call err, a.pc g = .publish call err →
      a.backgroundDone ≠ some call.closeDone) (hm : Move r a a') : Startup a' := by
  cases hm with
  | refuse g hmu hclose =>
    exact (h.orAlreadyDone hmu hclose).aside (aside_mark fun d hd => by cases hd)
  | again g => exact h.aside (aside_mark fun d hd => by cases hd)
  | begin g hpc hmu hclose hstarted =>
    rcases h.free hmu with h | ⟨_, _, hstarted', _⟩
    · exact h.begin hmade hclose
    · rw [hstarted] at hstarted'
      cases hstarted'
  | launch g i d hpc => exact (h.loop hpc).launch
  | launched g i d hpc => exact (h.loop hpc).launched
  | await g hpc => exact h.aside (aside_enter (by rw [hpc]; rfl) rfl)
  | closing g hpc hmu hclose =>
    rw [close_eq hclose]
    refine (h.setClose hmu).aside
      ((aside_enter ?_ rfl).trans (aside_mark fun d hd => by cases hd))
    rw [Application.setClose, orAlreadyDone_pc]
    show launching? (a.pc g) = none
    rw [hpc]
    rfl
  | shutdown g hpc => exact h.aside (aside_enter (by rw [hpc]; rfl) rfl)
  | streams g call hpc honce =>
    rw [Application.closeStreams, honce]
    have h := h.aside ((aside_enter (g := g) (p := .closer call) (by rw [hpc]; rfl) rfl).trans
      (aside_once .running))
    show Startup (if r.streams then _ else _)
    split
    next => exact h.aside (aside_mark fun d hd => by cases hd)
    next => exact h
  | skip g call hpc =>
    exact h.aside (aside_enter (by rw [hpc]; rfl) (launching?_afterStreams call))
  | closer g call hpc =>
    exact h.aside ((aside_enter (by rw [hpc]; rfl) (launching?_afterStreams call)).trans
      (aside_once .done))
  | cancel g call hpc =>
    have h := h.aside (aside_enter (g := g) (p := .wait call) (by rw [hpc]; rfl) rfl)
    split
    next => exact h.aside (aside_mark fun d hd => by cases hd)
    next => exact h
  | wait g call d hpc => exact h.aside (aside_enter (by rw [hpc]; rfl) rfl)
  | conn g call err hpc =>
    exact h.aside ((aside_enter (by rw [hpc]; rfl) rfl).trans (aside_mark fun d hd => by cases hd))
  | noConn g call hpc => exact h.aside (aside_enter (by rw [hpc]; rfl) rfl)
  | publish g call err hpc hmu =>
    have hleave : Aside a ((a.enter g .idle).mark (.closed g err)) :=
      (aside_enter (by rw [hpc]; rfl) rfl).trans (aside_mark fun d hd => by cases hd)
    refine (h.aside hleave).aside ⟨rfl, rfl, rfl, rfl, rfl, rfl, Nat.le_refl _, fun _ => rfl,
      fun _ => Iff.rfl, fun d hd hnd => ⟨hmu, ?_⟩⟩
    rcases List.mem_append.mp hd with hd | hd
    · exact absurd hd hnd
    · rw [List.mem_singleton.mp hd]
      exact hdistinct g call err hpc
  | awaited g d hpc => exact h.aside (aside_enter (by rw [hpc]; rfl) rfl)
  | read g hpc =>
    exact h.aside ((aside_enter (by rw [hpc]; rfl) rfl).trans (aside_mark fun d hd => by cases hd))
  | run i hi => exact h.runner hi (fun h => by cases h) (fun h => by cases h)
  | returned i hi =>
    exact (h.runner hi (fun h => by cases h) (fun h => by cases h)).aside
      (aside_mark fun d hd => by cases hd)
  | finish d hwaiter hrunners => exact (h.waiter hwaiter).finish hrunners

/-! ## The channels -/

/-- A channel is made before it is closed or kept, and the two that are kept are different. -/
structure Numbered (a : Application G E) : Prop where
  closed : ∀ d ∈ a.closedChannels, d < a.made
  backgroundDone : ∀ d, a.backgroundDone = some d → d < a.made
  closeDone : ∀ d, a.closeDone = some d → d < a.made ∧ a.backgroundDone ≠ some d
  unclosed : a.closeStarted = false → a.closeDone = none

omit [DecidableEq G] in
/-- A channel that was made before may be closed. -/
theorem Numbered.close (h : Numbered a) {d : Nat} (hd : d < a.made) :
    Numbered { a with closedChannels := a.closedChannels ++ [d] } := by
  refine ⟨fun d' hd' => ?_, h.backgroundDone, h.closeDone, h.unclosed⟩
  rcases List.mem_append.mp hd' with hd' | hd'
  · exact h.closed d' hd'
  · rw [List.mem_singleton.mp hd']
    exact hd

omit [DecidableEq G] in
/-- The channel made for a `Close` before any `RunBackground` is a new one. -/
theorem Numbered.orAlreadyDone (h : Numbered a) : Numbered a.orAlreadyDone := by
  cases hdone : a.backgroundDone with
  | some d => rwa [orAlreadyDone_of_some hdone]
  | none =>
    rw [orAlreadyDone_of_none hdone]
    have hset : Numbered { a with backgroundDone := some a.made, made := a.made + 1 } := by
      refine ⟨fun d hd => Nat.lt_succ_of_lt (h.closed d hd), fun d hd => ?_, fun d hd => ?_,
        h.unclosed⟩
      · cases hd
        exact Nat.lt_succ_self _
      · have hlt := (h.closeDone d hd).1
        refine ⟨Nat.lt_succ_of_lt hlt, fun heq => ?_⟩
        cases heq
        exact Nat.lt_irrefl _ hlt
    exact hset.close (Nat.lt_succ_self _)

/-- Every move uses the channels that were made, and makes new ones under new numbers. -/
theorem Numbered.move (h : Numbered a) (hs : Startup a)
    (hcall : ∀ g call err, a.pc g = .publish call err → call.closeDone < a.made)
    (hm : Move r a a') : Numbered a' := by
  cases hm with
  | refuse g =>
    have h := h.orAlreadyDone
    exact ⟨h.1, h.2, h.3, h.4⟩
  | begin g =>
    exact ⟨fun d hd => Nat.lt_succ_of_lt (h.closed d hd),
      fun d hd => Nat.lt_succ_of_lt (h.backgroundDone d hd),
      fun d hd => (h.closeDone d hd).imp_left Nat.lt_succ_of_lt, h.unclosed⟩
  | launched g i d hpc =>
    have hl := hs.loop hpc
    refine ⟨h.closed, fun d' hd' => ?_, fun d' hd' => ?_, h.unclosed⟩
    · cases hd'
      exact hl.made
    · exact absurd ((h.unclosed hl.closeStarted).symm.trans hd') (fun h => by cases h)
  | closing g hpc hmu hclose =>
    rw [close_eq hclose]
    have hset : Numbered { a with
        closeStarted := true, closeDone := some a.made, made := a.made + 1 } := by
      refine ⟨fun d hd => Nat.lt_succ_of_lt (h.closed d hd),
        fun d hd => Nat.lt_succ_of_lt (h.backgroundDone d hd), fun d hd => ?_, fun h => by cases h⟩
      cases hd
      exact ⟨Nat.lt_succ_self _, fun heq => Nat.lt_irrefl _ (h.backgroundDone _ heq)⟩
    have h := hset.orAlreadyDone
    exact ⟨h.1, h.2, h.3, h.4⟩
  | streams g call hpc honce =>
    rw [Application.closeStreams, honce]
    show Numbered (if r.streams then _ else _)
    split
    next => exact ⟨h.1, h.2, h.3, h.4⟩
    next => exact ⟨h.1, h.2, h.3, h.4⟩
  | cancel g call hpc =>
    split
    next => exact ⟨h.1, h.2, h.3, h.4⟩
    next => exact ⟨h.1, h.2, h.3, h.4⟩
  | publish g call err hpc hmu =>
    have h := h.close (hcall g call err hpc)
    exact ⟨h.1, h.2, h.3, h.4⟩
  | finish d hwaiter =>
    have h := h.close (h.backgroundDone d (hs.waiter hwaiter).backgroundDone)
    exact ⟨h.1, h.2, h.3, h.4⟩
  | _ => exact ⟨h.1, h.2, h.3, h.4⟩

/-! ## The log -/

/-- What the log says of the runners and of `closeStarted`. -/
structure Logged (a : Application G E) : Prop where
  started : ∀ i, .started i ∈ a.log ↔ ∃ p, a.runners[i]? = some p ∧ p ≠ .idle
  returned : ∀ i, a.runners[i]? = some .returned → .returned i ∈ a.log
  closing : (∃ g, .closing g ∈ a.log) ↔ a.closeStarted = true

omit [DecidableEq G] in
/-- A mark that is neither a start nor a closing says nothing new of them. -/
theorem Logged.mark (h : Logged a) {m : Mark G E} (hstarted : ∀ i, m ≠ .started i)
    (hclosing : ∀ g, m ≠ .closing g) : Logged (a.mark m) := by
  obtain ⟨started, returned, closing⟩ := h
  constructor <;> simp only [Application.mark, List.mem_append, List.mem_singleton] <;> grind

omit [DecidableEq G] in
/-- A step that the runners have no part in and `closeStarted` neither. -/
theorem Logged.congr (h : Logged a) (hlog : a'.log = a.log) (hrunners : a'.runners = a.runners)
    (hclose : a'.closeStarted = a.closeStarted) : Logged a' := by
  refine ⟨?_, ?_, ?_⟩
  · rw [hlog, hrunners]; exact h.started
  · rw [hlog, hrunners]; exact h.returned
  · rw [hlog, hclose]; exact h.closing

/-- Every move keeps the log in step with the runners. -/
theorem Logged.move (h : Logged a) (hs : Startup a) (hm : Move r a a') : Logged a' := by
  cases hm with
  | refuse g =>
    have h : Logged a.orAlreadyDone := h.congr orAlreadyDone_log orAlreadyDone_runners
      orAlreadyDone_closeStarted
    exact h.mark (fun _ h => by cases h) (fun _ h => by cases h)
  | again g => exact h.mark (fun _ h => by cases h) (fun _ h => by cases h)
  | begin g =>
    have h := h.mark (m := .begun a.made) (fun _ h => by cases h) (fun _ h => by cases h)
    exact h.congr rfl rfl rfl
  | launch g i d hpc hi =>
    have hidle : a.runners[i]? = some .idle := by
      have hmem : a.runners[i] ∈ a.runners.drop i := by
        rw [List.drop_eq_getElem_cons hi]
        exact List.mem_cons_self
      rw [List.getElem?_eq_getElem hi, (hs.loop hpc).runners _ hmem]
    obtain ⟨started, returned, closing⟩ := h
    constructor <;> simp only [enter, Application.mark] <;> grind
  | launched g i d =>
    have h := h.mark (m := .background g (some d)) (fun _ h => by cases h) (fun _ h => by cases h)
    exact h.congr rfl rfl rfl
  | closing g hpc hmu hclose =>
    rw [close_eq hclose]
    obtain ⟨started, returned, closing⟩ := h
    constructor <;> simp only [enter, Application.mark, setClose, orAlreadyDone_log,
      orAlreadyDone_runners, orAlreadyDone_closeStarted] <;> grind
  | streams g call hpc honce =>
    rw [Application.closeStreams, honce]
    have hmark := h.mark (m := .streams) (fun _ h => by cases h) (fun _ h => by cases h)
    show Logged (if r.streams then _ else _)
    split
    next => exact hmark.congr rfl rfl rfl
    next => exact h.congr rfl rfl rfl
  | cancel g call =>
    have hmark := h.mark (m := .cancelled) (fun _ h => by cases h) (fun _ h => by cases h)
    split
    next => exact hmark.congr rfl rfl rfl
    next => exact h.congr rfl rfl rfl
  | conn g call err =>
    have h := h.mark (m := .connClosed err) (fun _ h => by cases h) (fun _ h => by cases h)
    exact h.congr rfl rfl rfl
  | publish g call err =>
    have h := h.mark (m := .closed g err) (fun _ h => by cases h) (fun _ h => by cases h)
    exact h.congr rfl rfl rfl
  | read g =>
    have h := h.mark (m := .closed g a.closeErr) (fun _ h => by cases h) (fun _ h => by cases h)
    exact h.congr rfl rfl rfl
  | run i hi =>
    obtain ⟨started, returned, closing⟩ := h
    constructor <;> simp only <;> grind
  | returned i hi =>
    obtain ⟨started, returned, closing⟩ := h
    constructor <;> simp only [Application.mark] <;> grind
  | _ => exact h.congr rfl rfl rfl

/-! ## The stream closer -/

/-- How far `streamsCloseOnce` is when a goroutine is there. -/
def Passed (once : Once) : Pc E → Prop
  | .closer _ => once ≠ .unused
  | .cancel _ => once = .done
  | _ => True

structure Streamed (r : Runtime) (a : Application G E) : Prop where
  called : .streams ∈ a.log ↔ r.streams = true ∧ a.streamsCloseOnce ≠ .unused
  passed : ∀ g, Passed a.streamsCloseOnce (a.pc g)

private theorem passed_done (pc : Pc E) : Passed .done pc := by
  cases pc with
  | closer call => exact fun h => by cases h
  | cancel call => rfl
  | _ => trivial

/-- A goroutine moves without a call of `streams.Close`. -/
theorem Streamed.enter (h : Streamed r a) {p : Pc E} (hpc : Passed a.streamsCloseOnce p) :
    Streamed r (a.enter g p) := by
  refine ⟨h.called, fun g' => ?_⟩
  rw [pc_enter]
  split
  next => exact hpc
  next => exact h.passed g'

omit [DecidableEq G] in
private theorem Streamed.mark (h : Streamed r a) {m : Mark G E} (hm : m ≠ .streams) :
    Streamed r (a.mark m) := by
  refine ⟨Iff.trans ?_ h.called, h.passed⟩
  show .streams ∈ a.log ++ [m] ↔ _
  rw [List.mem_append, List.mem_singleton]
  exact or_iff_left fun h => hm h.symm

omit [DecidableEq G] in
private theorem Streamed.congr (h : Streamed r a) (hlog : a'.log = a.log)
    (honce : a'.streamsCloseOnce = a.streamsCloseOnce) (hpc : a'.pc = a.pc) : Streamed r a' := by
  refine ⟨?_, ?_⟩
  · rw [hlog, honce]; exact h.called
  · rw [hpc, honce]; exact h.passed

/-- The first caller of `closeStreams` calls `streams.Close`, when there are streams. -/
theorem Streamed.streams (h : Streamed r a) {call : Option Closing}
    (honce : a.streamsCloseOnce = .unused) : Streamed r (a.closeStreams r g call) := by
  rw [Application.closeStreams, honce]
  have hpassed : ∀ g', Passed .running (Function.update a.pc g (.closer call) g') := by
    intro g'
    have hg' := h.passed g'
    rw [honce] at hg'
    rw [Function.update_apply]
    split
    next => exact fun h => by cases h
    next =>
      cases hpc : a.pc g' with
      | closer call => exact fun h => by cases h
      | cancel call => rw [hpc] at hg'; cases hg'
      | _ => trivial
  show Streamed r (if r.streams then _ else _)
  split
  next hr =>
    exact ⟨⟨fun _ => ⟨hr, fun h => by cases h⟩,
      fun _ => List.mem_append_right _ List.mem_cons_self⟩, hpassed⟩
  next hr => exact ⟨⟨fun hs => absurd (h.called.mp hs).1 hr, fun hs => absurd hs.1 hr⟩, hpassed⟩

/-- Every move calls `streams.Close` at most once. -/
theorem Streamed.move (h : Streamed r a) (hm : Move r a a') : Streamed r a' := by
  cases hm with
  | refuse g =>
    have h : Streamed r a.orAlreadyDone := h.congr orAlreadyDone_log
      orAlreadyDone_streamsCloseOnce orAlreadyDone_pc
    exact h.mark fun h => by cases h
  | again g => exact h.mark fun h => by cases h
  | begin g =>
    have h := (h.enter (g := g) (p := .launching 0 a.made) trivial).mark (m := .begun a.made)
      fun h => by cases h
    exact h.congr rfl rfl rfl
  | launch g i d =>
    have h := (h.enter (g := g) (p := .launching (i + 1) d) trivial).mark (m := .started i)
      fun h => by cases h
    exact h.congr rfl rfl rfl
  | launched g i d =>
    have h := (h.enter (g := g) (p := .idle) trivial).mark (m := .background g (some d))
      fun h => by cases h
    exact h.congr rfl rfl rfl
  | await g => exact h.enter trivial
  | closing g hpc hmu hclose =>
    rw [close_eq hclose]
    have h : Streamed r a.setClose :=
      h.congr orAlreadyDone_log orAlreadyDone_streamsCloseOnce orAlreadyDone_pc
    exact (h.enter (p := .once _) trivial).mark fun h => by cases h
  | shutdown g => exact h.enter trivial
  | streams g call hpc honce => exact h.streams honce
  | skip g call hpc honce => exact h.enter (honce ▸ passed_done _)
  | closer g call hpc =>
    have hcloser := h.passed g
    rw [hpc] at hcloser
    have h : Streamed r { a with streamsCloseOnce := .done } :=
      ⟨h.called.trans (and_congr_right fun _ => iff_of_true hcloser fun h => by cases h),
        fun g' => passed_done _⟩
    exact h.enter (passed_done _)
  | cancel g call =>
    have h := h.enter (g := g) (p := .wait call) trivial
    split
    next => exact h.mark fun h => by cases h
    next => exact h
  | wait g => exact h.enter trivial
  | conn g call err =>
    exact (h.enter (p := .publish call err) trivial).mark fun h => by cases h
  | noConn g => exact h.enter trivial
  | publish g call err =>
    have h := (h.enter (g := g) (p := .idle) trivial).mark (m := .closed g err)
      fun h => by cases h
    exact h.congr rfl rfl rfl
  | awaited g => exact h.enter trivial
  | read g => exact (h.enter (p := .idle) trivial).mark fun h => by cases h
  | returned i =>
    have h := h.mark (m := .returned i) fun h => by cases h
    exact h.congr rfl rfl rfl
  | _ => exact h.congr rfl rfl rfl

end TinyProbe.App.Application
