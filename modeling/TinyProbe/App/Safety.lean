import TinyProbe.App.Shutdown
import Mathlib.Data.List.Pairwise

/-!
# What a run of the application never does

The stages of the background and of closing are one invariant of every step (`Inv`), and each thing
the log records is allowed where it happens (`Rule`). `lifecycle_safe` reads the promises of the
lifecycle off the logs of all runs.

A runner counts as started when its `go` statement is executed, and `Close` as begun when it sets
`closeStarted`. The scheduler may have the goroutine of a runner enter `Run` later.
-/

namespace TinyProbe.App

def Mark.isStarted {G E : Type} (i : Nat) : Mark G E → Bool
  | .started j => i == j
  | _ => false

def Mark.isStreams {G E : Type} : Mark G E → Bool
  | .streams => true
  | _ => false

def Mark.isConnClosed {G E : Type} : Mark G E → Bool
  | .connClosed _ => true
  | _ => false

namespace Application

open Run Trace

variable {G E : Type} [DecidableEq G] {r : Runtime} {a a' : Application G E} {g : G}

/-- What holds between any two steps. -/
structure Inv (r : Runtime) (a : Application G E) : Prop where
  startup : Startup a
  numbered : Numbered a
  logged : Logged a
  streamed : Streamed r a
  shutdown : Shutdown r a

theorem inv_new (r : Runtime) : Inv r (new r : Application G E) where
  startup := .unbegun ⟨rfl, fun _ => rfl, rfl, fun _ => rfl, rfl,
    fun _ hp => (List.mem_replicate.mp hp).2, fun _ => List.not_mem_nil⟩
  numbered := ⟨fun _ hd => absurd hd List.not_mem_nil, (fun _ h => by cases h),
    (fun _ h => by cases h), fun _ => rfl⟩
  logged := by
    refine ⟨fun i => iff_of_false List.not_mem_nil ?_, fun i hi => ?_,
      iff_of_false (fun h => h.elim fun _ hmem => absurd hmem List.not_mem_nil) Bool.false_ne_true⟩
    · rintro ⟨p, hp, hidle⟩
      exact hidle (List.mem_replicate.mp (List.mem_of_getElem? hp)).2
    · cases (List.mem_replicate.mp (List.mem_of_getElem? hi)).2
  streamed := ⟨iff_of_false List.not_mem_nil fun h => h.2 rfl, fun _ => trivial⟩
  shutdown := .unclosed ⟨rfl, fun _ => rfl, (fun _ h => by cases h), (fun _ _ h => by cases h),
    fun _ => List.not_mem_nil, fun _ _ => List.not_mem_nil⟩

theorem Inv.move (h : Inv r a) (hm : Move r a a') : Inv r a' := by
  have hcaller : ∀ g call err, a.pc g = .publish call err → Under r a g call :=
    fun g call err hpc => h.shutdown.caller (by rw [hpc]; rfl)
  refine ⟨h.startup.move (fun hd => Nat.lt_irrefl _ (h.numbered.closed _ hd)) ?_ hm,
    h.numbered.move h.startup ?_ hm, h.logged.move h.startup hm, h.streamed.move hm,
    h.shutdown.move h.startup h.numbered h.logged hm⟩
  · intro g call err hpc
    exact (h.numbered.closeDone _ (hcaller g call err hpc).closeDone).2
  · intro g call err hpc
    exact (h.numbered.closeDone _ (hcaller g call err hpc).closeDone).1

/-! ## What may happen when -/

/-- What has to have happened, and what not, before something happens. -/
def Rule (r : Runtime) (log : List (Mark G E)) : Mark G E → Prop
  | .begun _ => True
  | .started i => .started i ∉ log ∧ ∀ g, .closing g ∉ log
  | .returned _ => True
  | .background _ done => ∀ d, .begun d ∈ log → done = some d
  | .closing _ => True
  | .streams => .streams ∉ log
  | .cancelled => r.streams = true → .streams ∈ log
  | .connClosed _ => (∃ g, .closing g ∈ log) ∧ Quiet log ∧ ∀ err, .connClosed err ∉ log
  | .closed _ err => (∃ g, .closing g ∈ log) ∧ Quiet log ∧
      (r.conn = true → .connClosed err ∈ log) ∧ ∀ g err', .closed g err' ∈ log → err' = err

/-- A step records at most one thing, and only what may happen. -/
theorem Inv.rule (h : Inv r a) (hm : Move r a a') :
    a'.log = a.log ∨ ∃ m, a'.log = a.log ++ [m] ∧ Rule r a.log m := by
  obtain ⟨hs, hn, hl, hst, hsh⟩ := h
  cases hm with
  | refuse g hmu hclose =>
    refine Or.inr ⟨.background g a.orAlreadyDone.backgroundDone,
      congrArg (· ++ _) orAlreadyDone_log, fun d hd => ?_⟩
    rcases hs.free hmu with hu | ⟨d', hdone, _, hbegun⟩
    · exact absurd hd (hu.begun d)
    · rw [orAlreadyDone_of_some hdone, hdone, (hbegun d).mp hd]
  | again g hmu _ hstarted =>
    refine Or.inr ⟨_, rfl, fun d hd => ?_⟩
    rcases hs.free hmu with hu | ⟨d', hdone, _, hbegun⟩
    · exact absurd hd (hu.begun d)
    · rw [hdone, (hbegun d).mp hd]
  | begin g => exact Or.inr ⟨_, rfl, trivial⟩
  | launch g i d hpc hi =>
    have hloop := hs.loop hpc
    refine Or.inr ⟨_, rfl, fun hmem => ?_, fun g' hmem => ?_⟩
    · obtain ⟨p, hp, hidle⟩ := (hl.started i).mp hmem
      refine hidle (hloop.runners p (List.mem_of_getElem? (i := 0) ?_))
      rw [List.getElem?_drop, Nat.add_zero, hp]
    · exact Bool.false_ne_true (hloop.closeStarted.symm.trans (hl.closing.mp ⟨g', hmem⟩))
  | launched g i d hpc =>
    exact Or.inr ⟨_, rfl, fun d' hd' => congrArg some (((hs.loop hpc).begun d').mp hd').symm⟩
  | await g => exact Or.inl rfl
  | closing g hpc hmu hclose =>
    rw [close_eq hclose]
    exact Or.inr ⟨.closing g, congrArg (· ++ _) orAlreadyDone_log, trivial⟩
  | shutdown g => exact Or.inl rfl
  | streams g call hpc honce =>
    rw [Application.closeStreams, honce]
    show (if r.streams then _ else _ : Application G E).log = _ ∨
      ∃ m, (if r.streams then _ else _ : Application G E).log = _ ∧ _
    split
    next => exact Or.inr ⟨.streams, rfl, fun hmem => (hst.called.mp hmem).2 honce⟩
    next => exact Or.inl rfl
  | skip g => exact Or.inl rfl
  | closer g => exact Or.inl rfl
  | cancel g call hpc =>
    have hdone := hst.passed g
    rw [hpc] at hdone
    split
    next =>
      refine Or.inr ⟨.cancelled, rfl, fun hr => hst.called.mpr ⟨hr, ?_⟩⟩
      rw [show _ = Once.done from hdone]
      exact fun h => by cases h
    next => exact Or.inl rfl
  | wait g => exact Or.inl rfl
  | conn g call err hpc =>
    have hu := hsh.caller (by rw [hpc]; rfl)
    have hreached := hu.reached
    rw [hpc] at hreached
    exact Or.inr ⟨_, rfl, hl.closing.mpr hu.closeStarted, hreached.1, hreached.2⟩
  | noConn g => exact Or.inl rfl
  | publish g call err hpc =>
    have hu := hsh.caller (by rw [hpc]; rfl)
    have hreached := hu.reached
    rw [hpc] at hreached
    exact Or.inr ⟨_, rfl, hl.closing.mpr hu.closeStarted, hreached.1, hreached.2,
      fun g' err' hmem => absurd hmem (hu.closed g' err')⟩
  | awaited g => exact Or.inl rfl
  | read g hpc =>
    obtain ⟨d, ho⟩ := hsh.reading hpc
    exact Or.inr ⟨_, rfl, hl.closing.mpr ho.closeStarted, ho.quiet, ho.connClosed, ho.closed⟩
  | run i => exact Or.inl rfl
  | returned i => exact Or.inr ⟨_, rfl, trivial⟩
  | finish d => exact Or.inl rfl

/-- In the log of every run each thing happens where it may. -/
theorem justified_run (r : Runtime) (as : List (Action G E)) :
    Justified (Rule r) (run (step r) (new r) as).log := by
  refine (@run_invariant _ _ _ (fun a => Inv r a ∧ Justified (Rule r) a.log) ?_ _
    ⟨inv_new r, justified_nil⟩ as).2
  rintro a act ⟨hinv, hlog⟩
  rcases step_move (r := r) a act with hstep | hm
  · rw [hstep]
    exact ⟨hinv, hlog⟩
  · refine ⟨hinv.move hm, ?_⟩
    rcases hinv.rule hm with hsame | ⟨m, hlast, hrule⟩
    · rw [hsame]
      exact hlog
    · rw [hlast]
      exact hlog.snoc hrule

/-! ## The promises of the lifecycle -/

/-- What the lifecycle promises of what happens, in the order it happens. -/
structure Safe (r : Runtime) (log : List (Mark G E)) : Prop where
  startedOnce : ∀ i, log.countP (Mark.isStarted i) ≤ 1
  notStarted : ∀ pre g post, log = pre ++ .closing g :: post → ∀ i, .started i ∉ post
  streamsOnce : log.countP Mark.isStreams ≤ 1
  streamsFirst : ∀ pre post, log = pre ++ .cancelled :: post → r.streams = true → .streams ∈ pre
  connOnce : log.countP Mark.isConnClosed ≤ 1
  connLast : ∀ pre err post, log = pre ++ .connClosed err :: post →
    ∀ i, .started i ∈ log → .returned i ∈ pre
  closedLast : ∀ pre g err post, log = pre ++ .closed g err :: post →
    (r.conn = true → .connClosed err ∈ pre) ∧ ∀ i, .started i ∈ log → .returned i ∈ pre
  sameError : ∀ g err g' err', .closed g err ∈ log → .closed g' err' ∈ log → err = err'
  sameChannel : ∀ pre d post, log = pre ++ .begun d :: post →
    ∀ g done, .background g done ∈ post → done = some d

/-- If both are returns of `Close`, they return the same. -/
def SameError (m m' : Mark G E) : Prop :=
  ∀ g err g' err', m = .closed g err → m' = .closed g' err' → err = err'

section Promises

variable {log : List (Mark G E)}

omit [DecidableEq G] in
/-- Nothing is started once `Close` has begun. -/
theorem notStarted_of_justified (h : Justified (Rule r) log) {pre post : List (Mark G E)}
    (hsplit : log = pre ++ post) (hclosing : ∃ g, .closing g ∈ pre) (i : Nat) :
    .started i ∉ post := by
  intro hmem
  obtain ⟨mid, post', rfl⟩ := List.append_of_mem hmem
  obtain ⟨g, hg⟩ := hclosing
  have hrule := h (pre ++ mid) (.started i) post' (by rw [hsplit, List.append_assoc])
  exact hrule.2 g (List.mem_append_left _ hg)

omit [DecidableEq G] in
/-- What is quiet when `Close` has begun stays quiet. -/
theorem quiet_of_justified (h : Justified (Rule r) log) {pre post : List (Mark G E)}
    (hsplit : log = pre ++ post) (hclosing : ∃ g, .closing g ∈ pre) (hquiet : Quiet pre) (i : Nat)
    (hmem : .started i ∈ log) : .returned i ∈ pre := by
  rw [hsplit] at hmem
  rcases List.mem_append.mp hmem with hmem | hmem
  · exact hquiet i hmem
  · exact absurd hmem (notStarted_of_justified h hsplit hclosing i)

omit [DecidableEq G] in
theorem safe_of_justified (h : Justified (Rule r) log) : Safe r log where
  startedOnce i := by
    refine h.countP_le_one fun pre m hrule hm b hb hb' => ?_
    cases m with
    | started j =>
      cases b with
      | started k =>
        rw [← beq_iff_eq.mp hm, beq_iff_eq.mp hb'] at hrule
        exact hrule.1 hb
      | _ => cases hb'
    | _ => cases hm
  notStarted pre g post hsplit i hmem := by
    have hclosed : log = pre ++ [.closing g] ++ post := by
      rw [hsplit, List.append_assoc, List.singleton_append]
    exact notStarted_of_justified h hclosed ⟨g, List.mem_append_right _ List.mem_cons_self⟩ i hmem
  streamsOnce := by
    refine h.countP_le_one fun pre m hrule hm b hb hb' => ?_
    cases m with
    | streams =>
      cases b with
      | streams => exact hrule hb
      | _ => cases hb'
    | _ => cases hm
  streamsFirst pre post hsplit := h pre .cancelled post hsplit
  connOnce := by
    refine h.countP_le_one fun pre m hrule hm b hb hb' => ?_
    cases m with
    | connClosed err =>
      cases b with
      | connClosed err' => exact hrule.2.2 err' hb
      | _ => cases hb'
    | _ => cases hm
  connLast pre err post hsplit := by
    obtain ⟨hclosing, hquiet, _⟩ := h pre (.connClosed err) post hsplit
    exact quiet_of_justified h hsplit hclosing hquiet
  closedLast pre g err post hsplit := by
    obtain ⟨hclosing, hquiet, hconn, _⟩ := h pre (.closed g err) post hsplit
    exact ⟨hconn, quiet_of_justified h hsplit hclosing hquiet⟩
  sameError g err g' err' hmem hmem' := by
    have : Std.Symm (SameError : Mark G E → Mark G E → Prop) :=
      ⟨fun _ _ h g₁ err₁ g₂ err₂ h₁ h₂ => (h g₂ err₂ g₁ err₁ h₂ h₁).symm⟩
    refine (h.pairwise (R := SameError) ?_).forall_of_forall ?_ hmem hmem' g err g' err' rfl rfl
    · intro pre m hrule b hb g₁ err₁ g₂ err₂ h₁ h₂
      rw [h₂] at hrule
      exact hrule.2.2.2 g₁ err₁ (h₁ ▸ hb)
    · intro m _ g₁ err₁ g₂ err₂ h₁ h₂
      rw [h₁] at h₂
      cases h₂
      rfl
  sameChannel pre d post hsplit g done hmem := by
    obtain ⟨mid, post', rfl⟩ := List.append_of_mem hmem
    have hrule := h (pre ++ .begun d :: mid) (.background g done) post'
      (by rw [hsplit, List.append_assoc, List.cons_append])
    exact hrule d (List.mem_append_right _ List.mem_cons_self)

/-- **The lifecycle of the application**, in every run: every order of the calls of every number of
goroutines, of the runners' steps and of the results of `conn.Close`. No runner is started twice or
once a `Close` has begun, the streams are closed before the runners are cancelled, the database
after they have returned, and every `Close` returns the same error when all of that is done. -/
theorem lifecycle_safe (r : Runtime) (as : List (Action G E)) : Safe r (run (step r) (new r) as).log :=
  safe_of_justified (justified_run r as)

end Promises

/-- One runner, a `Close` that waits for it, and another `Close` meanwhile. -/
example : (run (step ⟨1, true, true⟩) (new ⟨1, true, true⟩ : Application Nat Nat)
    ([.runBackground 0, .proceed 0 none, .proceed 0 none, .run 0, .close 1, .close 2] ++
      List.replicate 4 (.proceed 1 none) ++ [.proceed 1 none, .returned 0, .finish] ++
      [.proceed 1 none, .proceed 1 (some 7), .proceed 2 none, .proceed 1 none, .proceed 2 none,
        .proceed 2 none])).log =
    [.begun 0, .started 0, .background 0 (some 0), .closing 1, .streams, .cancelled, .returned 0,
      .connClosed (some 7), .closed 1 (some 7), .closed 2 (some 7)] := by decide

end Application

end TinyProbe.App
