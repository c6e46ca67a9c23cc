import TinyProbe.Live.Coordinator

/-!
# What a step of the coordinator can do

`Turn` lists what the step of the call that holds the lock can do, and `Step` what any step can do.
Every invariant of the coordinator is proved by cases on these two, and none looks into `step` or
`proceed` again. Each case names the state it leads to, so what it leaves alone is read off it.

`Knows` is what makes a call under the lock safe: whoever holds the lock may go by what the registry
told it, because only a statement of a later holder can change that.
-/

namespace TinyProbe.Live

open Servers Protocol History

variable {F : Type}

/-- The server a phase works for, as its call has read it. -/
def Phase.server? : Phase F → Option Server
  | .versioning _ server | .storing _ server | .publishing _ server _ | .recording _ server
  | .renaming server => some server
  | _ => none

/-- The call of `Accept` whose report a phase is about. -/
def Phase.call? : Phase F → Option (Call F)
  | .versioning call _ | .storing call _ | .publishing call _ _ | .recording call _ => some call
  | _ => none

/-- The phase a call begins with when it takes the lock; a sweep has its own step. -/
inductive Op.Starts : Op F → Phase F → Prop where
  | accept (call : Call F) : Starts (.accept call) (.authenticating call)
  | update (id : Int) (name : Option String) (enabled : Option Bool) :
      Starts (.update id name enabled) (.updating id name enabled)
  | delete (id : Int) : Starts (.delete id) (.deleting id)

/-- A call that has just taken the lock has read nothing yet. -/
theorem Op.Starts.server? {op : Op F} {phase : Phase F} (h : op.Starts phase) :
    phase.server? = none := by
  cases h <;> rfl

namespace Coordinator

variable [Float64 F]

/-- What the step of the call that holds the lock can do. -/
inductive Turn (s : Coordinator F) (h : Holder F) (outcome : Outcome) : Coordinator F → Prop where
  | refused {call : Call F} (hphase : h.phase = .authenticating call) :
      Turn s h outcome (s.finish h false)
  | authenticated {call : Call F} {fails : Bool} {server : Server}
      (hphase : h.phase = .authenticating call)
      (hauth : Service.authenticateToken s.registry call.token fails = .ok server) :
      Turn s h outcome (s.enter h (.versioning call server))
  | unversioned {call : Call F} {server : Server} (hphase : h.phase = .versioning call server) :
      Turn s h outcome
        ({ s with
          registry := (Service.updateAgentVersion s.registry server.id call.report.agentVersion
            outcome).2 }.finish h false)
  | versioned {call : Call F} {server : Server} (hphase : h.phase = .versioning call server)
      (hok : (Service.updateAgentVersion s.registry server.id call.report.agentVersion
        outcome).1 = .ok ()) :
      Turn s h outcome
        ({ s with
          registry := (Service.updateAgentVersion s.registry server.id call.report.agentVersion
            outcome).2 }.enter h (.storing call server))
  | stored {call : Call F} {server : Server} (hphase : h.phase = .storing call server) :
      Turn s h outcome
        (({ s with
          store := (s.store.upsertFrom server call.report call.receivedAt call.sourceIP).2
          }.install .stored call server).enter h
          (.publishing call server
            (Store.snapshotOf server call.report call.receivedAt call.sourceIP)))
  | published {call : Call F} {server : Server} {snapshot : Snapshot F}
      (hphase : h.phase = .publishing call server snapshot) :
      Turn s h outcome
        (((s.publish ⟨.updated, snapshot⟩).install .published call server).enter h
          (.recording call server))
  | recorded {call : Call F} {server : Server} (hphase : h.phase = .recording call server) :
      Turn s h outcome
        (({ s with
          history := s.history.step (.accept server.id call.report call.receivedAt) }.install
          .recorded call server).finish h true)
  | swept (hphase : h.phase = .sweeping []) : Turn s h outcome (s.finish h true)
  | offline {snapshot : Snapshot F} {todo : List (Snapshot F)}
      (hphase : h.phase = .sweeping (snapshot :: todo)) :
      Turn s h outcome ((s.publish ⟨.offline, snapshot⟩).enter h (.sweeping todo))
  | notUpdated {id : Int} {name : Option String} {enabled : Option Bool}
      (hphase : h.phase = .updating id name enabled) :
      Turn s h outcome
        ({ s with
          registry := (Service.update s.registry id name enabled outcome).2
          revokedServers := s.stillRevoked id enabled outcome }.finish h false)
  | updated {id : Int} {name : Option String} {enabled : Option Bool} {server : Server}
      (hphase : h.phase = .updating id name enabled)
      (hok : (Service.update s.registry id name enabled outcome).1 = .ok server) :
      Turn s h outcome
        ({ s with
          registry := (Service.update s.registry id name enabled outcome).2
          revokedServers := s.stillRevoked id enabled outcome }.enter h (.renaming server))
  | renamed {server : Server} (hphase : h.phase = .renaming server) :
      Turn s h outcome
        ({ s with
          store := s.store.rename server.id server.name
          revokedServers := if server.enabled then s.revokedServers
            else server.id :: s.revokedServers }.finish h true)
  | notDeleted {id : Int} (hphase : h.phase = .deleting id) :
      Turn s h outcome
        ({ s with
          registry := (Service.delete s.registry id outcome).2
          history := { s.history with rows := s.cascade id outcome } }.finish h false)
  | deleted {id : Int} (hphase : h.phase = .deleting id)
      (hok : (Service.delete s.registry id outcome).1 = .ok ()) :
      Turn s h outcome
        ({ s with
          registry := (Service.delete s.registry id outcome).2
          history := { s.history with rows := s.cascade id outcome } }.enter h (.dropping id))
  | dropped {id : Int} (hphase : h.phase = .dropping id) :
      Turn s h outcome ({ s with store := s.store.delete id }.enter h (.removing id))
  | removed {id : Int} (hphase : h.phase = .removing id) :
      Turn s h outcome
        ({ s with
          history := s.history.step (.removeServer id)
          revokedServers := id :: s.revokedServers }.finish h true)

/-- A write that the foreign key refuses leaves the table alone. -/
def Writes (s : Coordinator F) (a : Aggregator.Action F) : Prop :=
  ∀ f err stored, a = .write f err stored → s.admits f = true ∨ err.isSome ∧ stored = false

/-- What a step can do. -/
inductive Step (s : Coordinator F) : Action F → Coordinator F → Prop where
  | stay {a : Action F} : Step s a s
  | locked {a : Action F} {op : Op F} {phase : Phase F} (ha : ∀ outcome, a ≠ .proceed outcome)
      (hfree : s.holder = none) (hstarts : op.Starts phase) :
      Step s a { s with holder := some ⟨op, phase, s.view⟩ }
  | marked {cutoff : Time} {order : List Int} (hfree : s.holder = none)
      (horder : order.Perm ((s.store.markOffline cutoff).1.map Snapshot.serverID)) :
      Step s (.sweep cutoff order)
        { s with
          store := (s.store.markOffline cutoff).2
          holder := some ⟨.sweep cutoff, .sweeping (s.store.swept cutoff order), s.view⟩ }
  | turn {h : Holder F} {outcome : Outcome} {s' : Coordinator F} (hheld : s.holder = some h)
      (hturn : Turn s h outcome s') : Step s (.proceed outcome) s'
  | created {name : String} {outcome : Outcome} :
      Step s (.create name outcome)
        { s with registry := (Service.create s.registry name outcome).2 }
  | notRotated {id : Int} {outcome : Outcome} :
      Step s (.rotate id outcome)
        { s with registry := (Service.rotateTokenWithServer s.registry id outcome).2 }
  | rotated {id : Int} {outcome : Outcome} {answer : Server × Token} {row : Row}
      (hok : (Service.rotateTokenWithServer s.registry id outcome).1 = .ok answer)
      (hrow : s.registry.row? id = some row) :
      Step s (.rotate id outcome)
        { s with
          registry := (Service.rotateTokenWithServer s.registry id outcome).2
          rotating := s.rotating ++ [row.token] }
  | rotationReturned {token : Token} (hmem : token ∈ s.rotating) :
      Step s (.rotated token)
        { s with
          rotating := s.rotating.erase token, revokedTokens := token :: s.revokedTokens }
  | flushed {a b : Aggregator.Action F} (hflush : b.ofFlush = true) (hwrites : s.Writes b) :
      Step s (.flush a) { s with history := s.history.step b }

theorem lock_step {s : Coordinator F} {a : Action F} {op : Op F} {phase : Phase F}
    (ha : ∀ outcome, a ≠ .proceed outcome) (hstarts : op.Starts phase) :
    Step s a (s.lock op phase) := by
  unfold lock
  split
  next => exact .stay
  next hfree => exact .locked ha hfree hstarts

/-- **A step of the call that holds the lock is one of its turns.** -/
theorem proceed_turn (s : Coordinator F) (h : Holder F) (outcome : Outcome) :
    Turn s h outcome (s.proceed h outcome) := by
  unfold proceed
  split
  next call hphase =>
    split
    next => exact .refused hphase
    next server hauth => exact .authenticated hphase hauth
  next call server hphase =>
    split
    next hversion =>
      have := @Turn.unversioned F _ s h outcome call server hphase
      rwa [hversion] at this
    next hversion =>
      have := @Turn.versioned F _ s h outcome call server hphase (by rw [hversion])
      rwa [hversion] at this
  next call server hphase => exact .stored hphase
  next call server snapshot hphase => exact .published hphase
  next call server hphase => exact .recorded hphase
  next hphase => exact .swept hphase
  next snapshot todo hphase => exact .offline hphase
  next id name enabled hphase =>
    dsimp only
    split
    next hupdate =>
      have := @Turn.notUpdated F _ s h outcome id name enabled hphase
      rwa [hupdate] at this
    next server registry hupdate =>
      have := @Turn.updated F _ s h outcome id name enabled server hphase (by rw [hupdate])
      rwa [hupdate] at this
  next server hphase => exact .renamed hphase
  next id hphase =>
    dsimp only
    split
    next hdelete =>
      have := @Turn.notDeleted F _ s h outcome id hphase
      rwa [hdelete] at this
    next hdelete =>
      have := @Turn.deleted F _ s h outcome id hphase (by rw [hdelete])
      rwa [hdelete] at this
  next id hphase => exact .dropped hphase
  next id hphase => exact .removed hphase

theorem rotate_step (s : Coordinator F) (id : Int) (outcome : Outcome) :
    Step s (.rotate id outcome) (s.rotate id outcome) := by
  unfold rotate
  split
  next hrotate =>
    have := @Step.notRotated F _ s id outcome
    rwa [hrotate] at this
  next answer registry hrotate =>
    have hok : (Service.rotateTokenWithServer s.registry id outcome).1 = .ok answer := by
      rw [hrotate]
    obtain ⟨row, hrow, _⟩ := Service.rotate_ok hok
    have := Step.rotated hok hrow
    rw [hrotate] at this
    rw [hrow]
    exact this

theorem flush_step (s : Coordinator F) (a : Aggregator.Action F) :
    Step s (.flush a) (s.flush a) := by
  have hflushed : a.ofFlush = true → (∀ f err stored, a ≠ .write f err stored) →
      Step s (.flush a) { s with history := s.history.step a } := fun hflush hnot =>
    .flushed hflush fun f err stored heq => absurd heq (hnot f err stored)
  cases a with
  | accept serverID report receivedAt => exact .stay
  | removeServer serverID => exact .stay
  | write f err stored =>
    refine .flushed (b := if s.admits f then .write f err stored
      else .write f (some (err.getD foreignKey)) false) ?_ ?_
    · split <;> rfl
    · intro f' err' stored' heq
      split at heq
      next hadmits =>
        cases heq
        exact Or.inl hadmits
      next =>
        cases heq
        exact Or.inr ⟨rfl, rfl⟩
  | _ => exact hflushed rfl fun f err stored heq => by cases heq

/-- **A step is one of these.** -/
theorem step_step (s : Coordinator F) (a : Action F) : Step s a (s.step a) := by
  cases a with
  | accept call => exact lock_step (fun outcome heq => by cases heq) (.accept call)
  | sweep cutoff order =>
    simp only [step]
    split
    next horder =>
      split
      next => exact .stay
      next hfree =>
        have hlock : s.lock (.sweep cutoff) (.sweeping (s.store.swept cutoff order)) =
            { s with
              holder := some ⟨.sweep cutoff, .sweeping (s.store.swept cutoff order), s.view⟩ } := by
          rw [lock, hfree]
        rw [hlock]
        exact .marked hfree (of_decide_eq_true horder)
    next => exact .stay
  | update id name enabled =>
    simp only [step]
    split
    next => exact .stay
    next name' _ =>
      exact lock_step (fun outcome heq => by cases heq) (.update id name' enabled)
  | delete id => exact lock_step (fun outcome heq => by cases heq) (.delete id)
  | proceed outcome =>
    simp only [step]
    split
    next => exact .stay
    next h hheld => exact .turn hheld (proceed_turn s h outcome)
  | create name outcome => exact .created
  | rotate id outcome => exact rotate_step s id outcome
  | rotated token =>
    simp only [step]
    split
    next hmem => exact .rotationReturned hmem
    next => exact .stay
  | flush a => exact flush_step s a

/-! ## What a call may go by -/

/-- What the registry knows of a server, the call that holds the lock knows too. -/
def Knows (s : Coordinator F) (id : Int) (p : Server → Prop) : Prop :=
  s.registry.Knows id p ∧
    ∀ h server, s.holder = some h → h.phase.server? = some server → server.id = id → p server

/-- The step is no statement that gives the server columns that break `p`. -/
def Spares (id : Int) (p : Server → Prop) (s : Coordinator F) (a : Action F) : Prop :=
  ∀ outcome h name enabled, a = .proceed outcome → s.holder = some h →
    h.phase = .updating id name enabled → outcome.applied = true →
      ∀ server, p server → p ⟨server.id, name.getD server.name, enabled.getD server.enabled⟩

/-- The server that the call holding the lock was told of. -/
def Told (s : Coordinator F) (server : Server) : Prop :=
  ∃ h, s.holder = some h ∧ h.phase.server? = some server

/-- What the call that holds the lock was told of a server is still so. -/
def Current (s : Coordinator F) : Prop :=
  ∀ server, s.Told server → s.registry.Knows server.id (· = server)

section Laws

variable {s s' : Coordinator F} {a : Action F} {id : Int} {p q : Server → Prop}

/-- Only the step of the call that holds the lock changes what is known. -/
theorem spares_of_ne (h : ∀ outcome, a ≠ .proceed outcome) : Spares id p s a :=
  fun outcome _ _ _ ha => absurd ha (h outcome)

theorem spares_of_phase {h : Holder F} (hheld : s.holder = some h)
    (hphase : ∀ name enabled, h.phase ≠ .updating id name enabled) : Spares id p s a := by
  intro outcome h' name enabled _ hheld' hphase'
  cases hheld.symm.trans hheld'
  exact absurd hphase' (hphase name enabled)

/-- Nothing can be said of a server that there is not, so nothing breaks it. -/
theorem spares_false : Spares id (fun _ => False) s a := fun _ _ _ _ _ _ _ _ _ h => h

theorem Knows.mono (hs : s.Knows id p) (hpq : ∀ server, p server → q server) : s.Knows id q :=
  ⟨hs.1.mono hpq, fun h server hheld hserver hid => hpq server (hs.2 h server hheld hserver hid)⟩

/-- Without a holder there is only the registry to say something. -/
private theorem knows_free {r : Registry} (hr' : s'.registry = r) (hknows : r.Knows id p)
    (hnone : s'.holder = none) : s'.Knows id p := by
  refine ⟨hr' ▸ hknows, ?_⟩
  intro h server hheld
  rw [hnone] at hheld
  cases hheld

/-- A call goes on with a server it knows. -/
private theorem knows_enter {h' : Holder F} (hknows : s'.registry.Knows id p)
    (hheld : s'.holder = some h')
    (hserver : ∀ server, h'.phase.server? = some server → server.id = id → p server) :
    s'.Knows id p := by
  refine ⟨hknows, ?_⟩
  intro h'' server hheld''
  cases hheld.symm.trans hheld''
  exact hserver server

/-- A turn of the call that holds the lock. -/
private theorem Knows.turn {h : Holder F} {outcome : Outcome} (hs : s.Knows id p)
    (hheld : s.holder = some h) (hturn : Turn s h outcome s')
    (hspares : Spares id p s (.proceed outcome)) : s'.Knows id p := by
  obtain ⟨hr, hh⟩ := hs
  have hsame := fun server => hh _ server hheld
  have hupdate : ∀ {id' name enabled}, h.phase = Phase.updating id' name enabled →
      (Service.update s.registry id' name enabled outcome).2.Knows id p := by
    intro id' name enabled hphase
    refine Service.knows_update hr fun heq happlied => ?_
    exact hspares _ _ name enabled rfl hheld (heq ▸ hphase) happlied
  cases hturn with
  | refused hphase => exact knows_free rfl hr rfl
  | authenticated hphase hauth =>
    refine knows_enter hr rfl ?_
    intro server hserver hid
    cases hserver
    obtain ⟨row, hrow, rfl, _⟩ := Service.authenticateToken_row hauth
    exact hr.2 row (hid ▸ hrow)
  | unversioned hphase => exact knows_free rfl (Service.knows_updateAgentVersion hr _ _) rfl
  | versioned hphase _ =>
    apply knows_enter (Service.knows_updateAgentVersion hr _ _) rfl
    intro server hserver
    exact hsame server (hphase ▸ hserver)
  | stored hphase | published hphase =>
    refine knows_enter hr rfl ?_
    intro server hserver
    exact hsame server (hphase ▸ hserver)
  | recorded hphase => exact knows_free rfl hr rfl
  | swept hphase => exact knows_free rfl hr rfl
  | offline hphase =>
    refine knows_enter hr rfl ?_
    intro server hserver
    cases hserver
  | notUpdated hphase => exact knows_free rfl (hupdate hphase) rfl
  | updated hphase hok =>
    apply knows_enter (hupdate hphase) rfl
    intro server hserver hid
    cases hserver
    obtain ⟨hsid, _, row, hrow, rfl⟩ := Service.update_ok hok
    exact (hupdate hphase).2 row ((hid.symm.trans hsid) ▸ hrow)
  | renamed hphase => exact knows_free rfl hr rfl
  | notDeleted hphase => exact knows_free rfl (Service.knows_delete hr _) rfl
  | deleted hphase hok =>
    apply knows_enter (Service.knows_delete hr _) rfl
    intro server hserver
    cases hserver
  | dropped hphase =>
    refine knows_enter hr rfl ?_
    intro server hserver
    cases hserver
  | removed hphase => exact knows_free rfl hr rfl

/-- **What is known of a server stays known** until a statement says otherwise. -/
theorem Knows.step (hs : s.Knows id p) (hstep : Step s a s') (hspares : Spares id p s a) :
    s'.Knows id p := by
  obtain ⟨hr, hh⟩ := hs
  cases hstep with
  | stay => exact ⟨hr, hh⟩
  | locked _ hnone hstarts =>
    refine ⟨hr, ?_⟩
    intro h server hheld hserver
    cases hheld
    rw [Op.Starts.server? hstarts] at hserver
    cases hserver
  | marked =>
    refine ⟨hr, ?_⟩
    intro h server hheld hserver
    cases hheld
    cases hserver
  | created => exact ⟨Service.knows_create hr _ _, hh⟩
  | notRotated => exact ⟨Service.knows_rotate hr _, hh⟩
  | rotated => exact ⟨Service.knows_rotate hr _, hh⟩
  | rotationReturned => exact ⟨hr, hh⟩
  | flushed => exact ⟨hr, hh⟩
  | turn hheld hturn => exact Knows.turn ⟨hr, hh⟩ hheld hturn hspares

theorem Current.knows {server : Server} (hs : s.Current) (htold : s.Told server) :
    s.Knows server.id (· = server) := by
  refine ⟨hs server htold, ?_⟩
  intro h other hheld hother _
  obtain ⟨h', hheld', hserver⟩ := htold
  cases hheld.symm.trans hheld'
  exact Option.some.inj (hother.symm.trans hserver)

theorem current_free (h : s.holder = none) : s.Current := by
  rintro server ⟨h', hheld, _⟩
  rw [h] at hheld
  cases hheld

/-- **What a call was told stays so as long as it holds the lock.** -/
theorem Current.step (hs : s.Current) (hstep : Step s a s') : s'.Current := by
  have hsame : ∀ {s' : Coordinator F}, s'.holder = s.holder →
      (∀ server, s.registry.Knows server.id (· = server) →
        s'.registry.Knows server.id (· = server)) → s'.Current := by
    rintro s' hholder hknows server ⟨h, hheld, hserver⟩
    exact hknows server (hs server ⟨h, hholder ▸ hheld, hserver⟩)
  cases hstep with
  | stay => exact hs
  | locked _ _ hstarts =>
    rintro server ⟨h, hheld, hserver⟩
    cases hheld
    rw [Op.Starts.server? hstarts] at hserver
    cases hserver
  | marked =>
    rintro server ⟨h, hheld, hserver⟩
    cases hheld
    cases hserver
  | created => exact hsame rfl fun server h => Service.knows_create h _ _
  | notRotated | rotated => exact hsame rfl fun server h => Service.knows_rotate h _
  | rotationReturned | flushed => exact hsame rfl fun server h => h
  | turn hheld hturn =>
    have hgo : ∀ {s' : Coordinator F} {h' : Holder F}, s'.holder = some h' →
        (∀ server, h'.phase.server? = some server →
          s'.registry.Knows server.id (· = server)) → s'.Current := by
      rintro s' h' hheld' hknows server ⟨h'', hheld'', hserver⟩
      cases hheld'.symm.trans hheld''
      exact hknows server hserver
    have htold : ∀ server, _ = some server → s.registry.Knows server.id (· = server) :=
      fun server hserver => hs server ⟨_, hheld, hserver⟩
    cases hturn with
    | refused | unversioned | recorded | swept | notUpdated | renamed | notDeleted | removed =>
      exact current_free rfl
    | authenticated hphase hauth =>
      apply hgo rfl
      intro server hserver
      cases hserver
      obtain ⟨row, hrow, heq, _⟩ := Service.authenticateToken_row hauth
      exact Registry.knows_of_row hrow heq
    | versioned hphase _ =>
      apply hgo rfl
      intro server hserver
      exact Service.knows_updateAgentVersion (htold server (hphase ▸ hserver)) _ _
    | stored hphase | published hphase =>
      apply hgo rfl
      intro server hserver
      exact htold server (hphase ▸ hserver)
    | offline | deleted | dropped =>
      apply hgo rfl
      intro server hserver
      cases hserver
    | updated hphase hok =>
      apply hgo rfl
      intro server hserver
      cases hserver
      obtain ⟨hid, _, row, hrow, heq⟩ := Service.update_ok hok
      exact Registry.knows_of_row (hid.symm ▸ hrow) heq

end Laws

end Coordinator

end TinyProbe.Live
