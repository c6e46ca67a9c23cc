import TinyProbe.Live.Deletion

/-!
# Revocation

Disabling a server and deleting it go through the coordinator's lock, so a report is accepted before
them or after them, and after them its credential is refused. Rotating a token does not take the
lock: it can come between the steps of an `Accept` that has authenticated with the old token, and
return before that report is stored. `Waits` is the condition that it does not.

`Refuses` is what every run keeps without any condition: the registry refuses whatever a call that
has returned has revoked.
-/

namespace TinyProbe.Live

open Servers Protocol History Run

variable {F : Type}

/-- The call whose report a phase is about to store, publish or record. -/
def Phase.installing? : Phase F → Option (Call F)
  | .storing call _ | .publishing call _ _ | .recording call _ => some call
  | _ => none

/-- The server an accepted report is for. -/
def Phase.sender? : Phase F → Option Server
  | .versioning _ server | .storing _ server | .publishing _ server _ | .recording _ server =>
    some server
  | _ => none

theorem Phase.server?_of_sender? {phase : Phase F} {server : Server}
    (h : phase.sender? = some server) : phase.server? = some server := by
  cases phase with
  | versioning | storing | publishing | recording => exact h
  | _ => cases h

namespace Coordinator

variable [Float64 F]

/-- A rotation does not overtake a report: it returns when no report authenticated with the old token
is past `UpdateAgentVersion` and still to be stored, published or recorded, and no report gets past
it with a token whose rotation has returned. -/
def Waits (s : Coordinator F) : Action F → Prop
  | .rotated token => token ∈ s.rotating → ∀ h call, s.holder = some h →
      h.phase.installing? = some call → call.token ≠ token
  | .proceed outcome => ∀ h call server, s.holder = some h → h.phase = .versioning call server →
      (Service.updateAgentVersion s.registry server.id call.report.agentVersion outcome).1 =
        .ok () → call.token ∉ s.revokedTokens
  | _ => True

/-- What the calls that have returned have revoked is refused. -/
structure Refuses (s : Coordinator F) : Prop where
  servers : ∀ id ∈ s.revokedServers, s.Knows id fun server => server.enabled = false
  tokens : ∀ token, token ∈ s.revokedTokens ∨ token ∈ s.rotating → s.registry.Gone token
  /-- Whose report is under way was enabled when it authenticated. -/
  sender : ∀ h server, s.holder = some h → h.phase.sender? = some server → server.enabled = true
  /-- What was installed with a revoked credential had a token that was rotated. -/
  installed : ∀ i ∈ s.installed, i.revoked = true → i.token ∈ s.revokedTokens

section Steps

variable {s s' : Coordinator F} {a : Action F} {h : Holder F} {outcome : Outcome}

/-- Who is authenticated has a token that is not revoked. -/
theorem Refuses.authenticate (hs : s.Refuses) {token : Token} (htoken : token ∈ s.revokedTokens)
    (fails : Bool) (server : Server) :
    Service.authenticateToken s.registry token fails ≠ .ok server := by
  intro hauth
  obtain ⟨row, hrow, _, rfl, _⟩ := Service.authenticateToken_row hauth
  exact (hs.tokens _ (Or.inl htoken)).2 row (Registry.row?_iff.mp hrow).1 rfl

/-- The server of a report under way is not revoked. -/
theorem Refuses.not_revoked (hs : s.Refuses) {server : Server} (hheld : s.holder = some h)
    (hsender : h.phase.sender? = some server) : server.id ∉ s.revokedServers := by
  intro hid
  have hdisabled : server.enabled = false :=
    (hs.servers server.id hid).2 h server hheld (Phase.server?_of_sender? hsender) rfl
  rw [hs.sender h server hheld hsender] at hdisabled
  cases hdisabled

/-- A report is installed with a revoked credential exactly when its token was rotated. -/
theorem Refuses.revoked (hs : s.Refuses) {server : Server} (hheld : s.holder = some h)
    (hsender : h.phase.sender? = some server) (token : Token) :
    s.revoked token server.id = true ↔ token ∈ s.revokedTokens := by
  have := hs.not_revoked hheld hsender
  simp only [Coordinator.revoked, this, decide_false, Bool.or_false, decide_eq_true_eq]

/-! ## What is revoked stays refused -/

/-- A statement leaves disabled whatever it does not enable again. -/
theorem knows_disabled (hheld : s.holder = some h) {id' : Int} {name : Option String}
    {enabled : Option Bool} (hphase : h.phase = .updating id' name enabled)
    (hstep : Step s (.proceed outcome) s') {id : Int}
    (hid : id ∈ s.stillRevoked id' enabled outcome)
    (hknows : ∀ id ∈ s.revokedServers, s.Knows id fun server => server.enabled = false) :
    s'.Knows id fun server => server.enabled = false := by
  by_cases henables : outcome.applied ∧ enabled = some true ∧ (s.registry.row? id').isSome
  · rw [stillRevoked, if_pos henables, List.mem_filter, bne_iff_ne] at hid
    refine (hknows id hid.1).step hstep (spares_of_phase hheld ?_)
    intro name' enabled' heq
    cases hphase.symm.trans heq
    exact hid.2 rfl
  · rw [stillRevoked, if_neg henables] at hid
    have hdisabled := hknows id hid
    by_cases hrow : s.registry.row? id = none
    · -- of a deleted server there is nothing to know
      have hgone : s.Knows id fun _ => False := by
        refine ⟨⟨hdisabled.1.1, fun row hsome => ?_⟩, fun h' server hheld' hserver => ?_⟩
        · rw [hrow] at hsome
          cases hsome
        · cases hheld.symm.trans hheld'
          rw [hphase] at hserver
          cases hserver
      exact (hgone.step hstep spares_false).mono fun _ => False.elim
    · apply hdisabled.step hstep
      intro outcome' h' name' enabled' heq hheld' hphase' happlied server hserver
      cases heq
      cases hheld.symm.trans hheld'
      cases hphase.symm.trans hphase'
      cases enabled with
      | none => exact hserver
      | some enabled =>
        cases enabled with
        | false => rfl
        | true => exact absurd ⟨happlied, rfl, Option.isSome_iff_ne_none.mpr hrow⟩ henables

/-- A server whose disabling or deletion has returned stays disabled or gone. -/
theorem refuses_servers (hs : s.Refuses) (hcurrent : s.Current) (hclearing : s.Clearing)
    (hstep : Step s a s') :
    ∀ id ∈ s'.revokedServers, s'.Knows id fun server => server.enabled = false := by
  intro id hid
  have hkeep : (∀ outcome, a ≠ .proceed outcome) → id ∈ s.revokedServers →
      s'.Knows id fun server => server.enabled = false := fun ha hid =>
    (hs.servers id hid).step hstep (spares_of_ne ha)
  cases hstep with
  | stay => exact hs.servers id hid
  | locked ha => exact hkeep ha hid
  | marked | created | notRotated | rotated | rotationReturned | flushed =>
    exact hkeep (fun outcome heq => by cases heq) hid
  | @turn h outcome s' hheld hturn =>
    have hstep := Step.turn hheld hturn
    cases hturn with
    | notUpdated hphase | updated hphase =>
      exact knows_disabled hheld hphase hstep hid hs.servers
    | @renamed server hphase =>
      have hid : id ∈ if server.enabled then s.revokedServers
        else server.id :: s.revokedServers := hid
      have hspares : ∀ {id p}, Spares id p s (.proceed outcome) :=
        spares_of_phase hheld fun name enabled heq => by cases hphase.symm.trans heq
      split at hid
      next => exact (hs.servers id hid).step hstep hspares
      next hdisabled =>
        rcases List.mem_cons.mp hid with rfl | hid
        · have htold : s.Told server := ⟨_, hheld, by rw [hphase]; rfl⟩
          refine ((hcurrent.knows htold).mono ?_).step hstep hspares
          rintro _ rfl
          exact Bool.not_eq_true _ ▸ hdisabled
        · exact (hs.servers id hid).step hstep hspares
    | @removed id' hphase =>
      have hspares : ∀ {id p}, Spares id p s (.proceed outcome) :=
        spares_of_phase hheld fun name enabled heq => by cases hphase.symm.trans heq
      rcases List.mem_cons.mp hid with rfl | hid
      · have hgone := (hclearing.statement _ _ hheld (Or.inr hphase)).1
        exact (hgone.step hstep spares_false).mono fun _ => False.elim
      · exact (hs.servers id hid).step hstep hspares
    | refused hphase | unversioned hphase | authenticated hphase | versioned hphase
    | stored hphase | published hphase | recorded hphase | swept hphase | offline hphase
    | notDeleted hphase | deleted hphase | dropped hphase =>
      exact (hs.servers id hid).step hstep
        (spares_of_phase hheld fun name enabled heq => by cases hphase.symm.trans heq)

/-- No row ever has a token again once a rotation has replaced it. -/
theorem refuses_tokens (hs : s.Refuses) (hstep : Step s a s') :
    ∀ token, token ∈ s'.revokedTokens ∨ token ∈ s'.rotating → s'.registry.Gone token := by
  intro token htoken
  have hgone := hs.tokens token
  cases hstep with
  | stay | locked | marked | flushed => exact hgone htoken
  | created => exact Service.gone_create (hgone htoken) _ _
  | notRotated => exact Service.gone_rotate (hgone htoken) _
  | @rotated id outcome answer row hok hrow =>
    rcases htoken with htoken | htoken
    · exact Service.gone_rotate (hgone (Or.inl htoken)) _
    · rcases List.mem_append.mp htoken with htoken | htoken
      · exact Service.gone_rotate (hgone (Or.inr htoken)) _
      · obtain ⟨row', hrow', hgone'⟩ := Service.rotate_ok hok
        cases hrow.symm.trans hrow'
        rw [List.mem_singleton.mp htoken]
        exact hgone'
  | rotationReturned hmem =>
    rcases htoken with htoken | htoken
    · rcases List.mem_cons.mp htoken with rfl | htoken
      · exact hgone (Or.inr hmem)
      · exact hgone (Or.inl htoken)
    · exact hgone (Or.inr (List.mem_of_mem_erase htoken))
  | turn hheld hturn =>
    cases hturn with
    | unversioned | versioned => exact Service.gone_updateAgentVersion (hgone htoken) _ _
    | notUpdated | updated => exact Service.gone_update (hgone htoken) _ _ _
    | notDeleted | deleted => exact Service.gone_delete (hgone htoken) _
    | _ => exact hgone htoken

/-- A report under way was let in for an enabled server. -/
theorem refuses_sender (hs : s.Refuses) (hstep : Step s a s') :
    ∀ h server, s'.holder = some h → h.phase.sender? = some server → server.enabled = true := by
  intro h' server hheld' hsender
  cases hstep with
  | stay | created | notRotated | rotated | rotationReturned | flushed =>
    exact hs.sender h' server hheld' hsender
  | locked _ _ hstarts =>
    cases hheld'
    cases hstarts <;> cases hsender
  | marked =>
    cases hheld'
    cases hsender
  | turn hheld hturn =>
    have hsame := hs.sender _ server hheld
    cases hturn with
    | authenticated hphase hauth =>
      cases hheld'
      cases hsender
      obtain ⟨_, _, _, _, henabled⟩ := Service.authenticateToken_row hauth
      exact henabled
    | versioned hphase | stored hphase | published hphase =>
      cases hheld'
      exact hsame (hphase ▸ hsender)
    | offline | updated | deleted | dropped =>
      cases hheld'
      cases hsender
    | _ => cases hheld'

/-- What is installed with a revoked credential has a rotated token. -/
theorem refuses_installed (hs : s.Refuses) (hstep : Step s a s') :
    ∀ i ∈ s'.installed, i.revoked = true → i.token ∈ s'.revokedTokens := by
  intro i hi hrevoked
  have hinstall : ∀ {h : Holder F} {effect : Effect} {call : Call F} {server : Server},
      s.holder = some h → h.phase.sender? = some server →
        i ∈ s.installed ++ [⟨effect, call.token, server.id, s.revoked call.token server.id⟩] →
          i.token ∈ s.revokedTokens := by
    intro h effect call server hheld hsender hi
    rcases List.mem_append.mp hi with hi | hi
    · exact hs.installed i hi hrevoked
    · rw [List.mem_singleton.mp hi] at hrevoked ⊢
      exact (hs.revoked hheld hsender _).mp hrevoked
  cases hstep with
  | rotationReturned => exact List.mem_cons_of_mem _ (hs.installed i hi hrevoked)
  | turn hheld hturn =>
    cases hturn with
    | stored hphase | published hphase | recorded hphase =>
      exact hinstall hheld (by rw [hphase]; rfl) hi
    | _ => exact hs.installed i hi hrevoked
  | _ => exact hs.installed i hi hrevoked

/-- Every step keeps refused what was revoked, rotations that overtake reports included. -/
theorem Refuses.step (hs : s.Refuses) (hcurrent : s.Current) (hclearing : s.Clearing)
    (hstep : Step s a s') : s'.Refuses where
  servers := refuses_servers hs hcurrent hclearing hstep
  tokens := refuses_tokens hs hstep
  sender := refuses_sender hs hstep
  installed := refuses_installed hs hstep

/-! ## Reports that no rotation has overtaken -/

/-- No report with a revoked credential is about to be installed, and none has been. -/
structure Timely (s : Coordinator F) : Prop where
  installing : ∀ h call, s.holder = some h → h.phase.installing? = some call →
    call.token ∉ s.revokedTokens
  installed : ∀ i ∈ s.installed, i.revoked = false

/-- A step in which no rotation overtakes a report installs none with a revoked credential. -/
theorem Timely.step (hs : s.Timely) (hrefuses : s.Refuses) (hwaits : s.Waits a)
    (hstep : Step s a s') : s'.Timely := by
  have hsame : ∀ {s' : Coordinator F}, s'.revokedTokens = s.revokedTokens →
      s'.installed = s.installed → (∀ h' call, s'.holder = some h' →
        h'.phase.installing? = some call → call.token ∉ s.revokedTokens) → s'.Timely :=
    fun htokens hinstalled hnext => ⟨fun h' call hheld' hcall => htokens ▸ hnext h' call hheld' hcall,
      fun i hi => hs.installed i (hinstalled ▸ hi)⟩
  cases hstep with
  | stay | created | notRotated | rotated | flushed => exact hsame rfl rfl hs.installing
  | locked _ _ hstarts =>
    refine hsame rfl rfl fun h' call hheld' hcall => ?_
    cases hheld'
    cases hstarts <;> cases hcall
  | marked =>
    refine hsame rfl rfl fun h' call hheld' hcall => ?_
    cases hheld'
    cases hcall
  | rotationReturned hmem =>
    refine ⟨fun h' call hheld' hcall htoken => ?_, hs.installed⟩
    rcases List.mem_cons.mp htoken with htoken | htoken
    · exact hwaits hmem h' call hheld' hcall htoken
    · exact hs.installing h' call hheld' hcall htoken
  | @turn h outcome s' hheld hturn =>
    have hinstall : ∀ {s' : Coordinator F} {effect : Effect} {call : Call F} {server : Server},
        h.phase.sender? = some server → h.phase.installing? = some call →
        s'.revokedTokens = s.revokedTokens →
        s'.installed =
          s.installed ++ [⟨effect, call.token, server.id, s.revoked call.token server.id⟩] →
        (∀ h' call', s'.holder = some h' → h'.phase.installing? = some call' → call' = call) →
        s'.Timely := by
      intro s' effect call server hsender hcall htokens hinstalled hnext
      have hfresh := hs.installing h call hheld hcall
      refine ⟨fun h' call' hheld' hcall' => ?_, fun i hi => ?_⟩
      · rw [htokens, hnext h' call' hheld' hcall']
        exact hfresh
      · rw [hinstalled] at hi
        rcases List.mem_append.mp hi with hi | hi
        · exact hs.installed i hi
        · rw [List.mem_singleton.mp hi]
          exact Bool.eq_false_iff.mpr fun hrevoked =>
            hfresh ((hrefuses.revoked hheld hsender _).mp hrevoked)
    cases hturn with
    | stored hphase | published hphase =>
      refine hinstall (by rw [hphase]; rfl) (by rw [hphase]; rfl) rfl rfl ?_
      intro h' call' hheld' hcall'
      cases hheld'
      exact (Option.some.inj hcall').symm
    | recorded hphase =>
      refine hinstall (by rw [hphase]; rfl) (by rw [hphase]; rfl) rfl rfl ?_
      intro h' call' hheld'
      cases hheld'
    | versioned hphase hok =>
      refine hsame rfl rfl fun h' call hheld' hcall => ?_
      cases hheld'
      cases hcall
      exact hwaits h _ _ hheld hphase hok
    | authenticated | offline | updated | deleted | dropped =>
      refine hsame rfl rfl fun h' call hheld' hcall => ?_
      cases hheld'
      cases hcall
    | _ =>
      refine hsame rfl rfl fun h' call hheld' hcall => ?_
      cases hheld'

/-- The step of a report about to be installed with a revoked token installs it. -/
theorem installs_revoked {call : Call F} (hheld : s.holder = some h)
    (hcall : h.phase.installing? = some call) (htoken : call.token ∈ s.revokedTokens)
    (outcome : Outcome) :
    ∃ i ∈ (s.step (.proceed outcome)).installed, i.token = call.token ∧ i.revoked = true := by
  have hrevoked : ∀ id, s.revoked call.token id = true := fun id => by
    rw [revoked, decide_eq_true htoken, Bool.true_or]
  rw [Coordinator.step, hheld]
  show ∃ i ∈ (s.proceed h outcome).installed, _
  unfold proceed
  cases hphase : h.phase with
  | storing call' server | publishing call' server _ | recording call' server =>
    rw [hphase] at hcall
    cases hcall
    exact ⟨_, List.mem_append_right _ List.mem_cons_self, rfl, hrevoked _⟩
  | _ =>
    rw [hphase] at hcall
    cases hcall

/-- **A rotation that overtakes a report lets it in**: the next step of the report installs it. -/
theorem overtaken (hwaits : ¬ s.Waits a) (outcome : Outcome) :
    ∃ i ∈ ((s.step a).step (.proceed outcome)).installed, i.revoked = true := by
  cases a with
  | rotated token =>
    simp only [Waits, not_forall, not_not] at hwaits
    obtain ⟨hmem, h, call, hheld, hcall, htoken⟩ := hwaits
    have hstep : s.step (.rotated token) =
        { s with
          rotating := s.rotating.erase token, revokedTokens := token :: s.revokedTokens } :=
      if_pos hmem
    rw [hstep]
    obtain ⟨i, hi, _, hrevoked⟩ := installs_revoked
      (s := { s with rotating := s.rotating.erase token, revokedTokens := token :: s.revokedTokens })
      hheld hcall (htoken ▸ List.mem_cons_self) outcome
    exact ⟨i, hi, hrevoked⟩
  | proceed outcome' =>
    simp only [Waits, not_forall, not_not] at hwaits
    obtain ⟨h, call, server, hheld, hphase, hok, htoken⟩ := hwaits
    obtain ⟨hheld', htoken'⟩ : (s.step (.proceed outcome')).holder =
        some { h with phase := .storing call server } ∧
          call.token ∈ (s.step (.proceed outcome')).revokedTokens := by
      rw [Coordinator.step, hheld]
      show (s.proceed h outcome').holder = _ ∧ call.token ∈ (s.proceed h outcome').revokedTokens
      unfold proceed
      rw [hphase]
      dsimp only
      split
      next hversion =>
        rw [hversion] at hok
        cases hok
      next => exact ⟨rfl, htoken⟩
    obtain ⟨i, hi, _, hrevoked⟩ := installs_revoked hheld' rfl htoken' outcome
    exact ⟨i, hi, hrevoked⟩
  | _ => exact absurd trivial hwaits

end Steps

/-! ## The runs -/

/-- What the run rule carries. -/
structure Secured (s : Coordinator F) : Prop where
  current : s.Current
  clearing : s.Clearing
  refuses : s.Refuses

theorem Secured.step {s : Coordinator F} (hs : s.Secured) (a : Action F) : (s.step a).Secured :=
  ⟨hs.current.step (step_step s a), hs.clearing.step (step_step s a),
    hs.refuses.step hs.current hs.clearing (step_step s a)⟩

/-- Nothing is revoked at first. -/
theorem secured_initial (tables : Tables F) : (initial tables).Secured where
  current := current_free rfl
  clearing := clearing_free rfl
  refuses :=
    { servers := fun id hid => by cases hid
      tokens := fun token htoken => by rcases htoken with htoken | htoken <;> cases htoken
      sender := fun h server hheld => by cases hheld
      installed := fun i hi => by cases hi }

theorem timely_initial (tables : Tables F) : (initial tables).Timely where
  installing h call hheld := by cases hheld
  installed i hi := by cases hi

/-- What it carries through a run that waits. -/
structure Waited (s : Coordinator F) : Prop where
  secured : s.Secured
  timely : s.Timely

theorem Waited.step {s : Coordinator F} {a : Action F} (hs : s.Waited) (hwaits : s.Waits a) :
    (s.step a).Waited :=
  ⟨hs.secured.step a, hs.timely.step hs.secured.refuses hwaits (step_step s a)⟩

/-- **Revocation takes effect when the revoking call returns, unless a rotation overtakes a
report.** In every run in which rotations wait for the reports under way, nothing is stored,
published or recorded with a credential that a call that has returned has revoked; a rotation that
does not wait lets the report in. In every run whatever gets in has a rotated token, and nobody is
authenticated with one. -/
theorem revocation (tables : Tables F) :
    (∀ as, Guarded step Waits (initial tables) as →
      ∀ i ∈ (run step (initial tables) as).installed, i.revoked = false) ∧
    (∀ as a outcome, Guarded step Waits (initial tables) as →
      ¬ (run step (initial tables) as).Waits a →
        ∃ i ∈ (run step (initial tables) (as ++ [a, .proceed outcome])).installed,
          i.revoked = true) ∧
    ∀ as,
      (∀ i ∈ (run step (initial tables) as).installed, i.revoked = true →
        i.token ∈ (run step (initial tables) as).revokedTokens) ∧
      ∀ token ∈ (run step (initial tables) as).revokedTokens, ∀ fails server,
        Service.authenticateToken (run step (initial tables) as).registry token fails ≠
          .ok server := by
  have hsecured : ∀ as, (run step (initial tables) as).Secured := fun as =>
    run_invariant (fun _ a hs => hs.step a) (secured_initial tables) as
  refine ⟨?_, ?_, ?_⟩
  · intro as hguard
    have hwaited : (run step (initial tables) as).Waited :=
      hguard.invariant (fun _ _ hok hs => hs.step hok)
        ⟨secured_initial tables, timely_initial tables⟩
    exact hwaited.timely.installed
  · intro as a outcome _ hwaits
    rw [run_append]
    exact overtaken hwaits outcome
  · intro as
    exact ⟨(hsecured as).refuses.installed, fun token htoken =>
      (hsecured as).refuses.authenticate htoken⟩

/-! ## A rotation that waits, and one that does not -/

/-- A report presented with the server's first token. -/
def presented : Call Exact := ⟨0, .ofCPU (.fin 0), .ofUnix 0, ""⟩

/-- The token is rotated while the report is under way, and the rotation returns after the report
was recorded. -/
def waiting : List (Action Exact) :=
  [.accept presented, .proceed .ok, .proceed .ok, .rotate 1 .ok, .proceed .ok, .proceed .ok,
    .proceed .ok, .rotated 0]

/-- The report got in before its token was revoked. -/
theorem waiting_installed :
    (run step (initial .oneServer) waiting).revokedTokens = [0] ∧
      (run step (initial .oneServer) waiting).installed.map Installed.effect =
        [.stored, .published, .recorded] ∧
      ∀ i ∈ (run step (initial .oneServer) waiting).installed, i.revoked = false := by
  refine ⟨by decide +kernel, by decide +kernel, (revocation .oneServer).1 waiting ?_⟩
  have hproceed : ∀ (n : Nat), n < 7 →
      (run step (initial .oneServer) (waiting.take n)).revokedTokens = [] := by decide +kernel
  have hfree : (run step (initial .oneServer) (waiting.take 7)).holder.isNone = true := by
    decide +kernel
  have hclear : ∀ n, n < 7 → ∀ call : Call Exact,
      call.token ∉ (run step (initial .oneServer) (waiting.take n)).revokedTokens := by
    intro n hn call
    rw [hproceed n hn]
    exact List.not_mem_nil
  refine ⟨trivial, fun _ call _ _ _ _ => hclear 1 (by decide) call,
    fun _ call _ _ _ _ => hclear 2 (by decide) call, trivial,
    fun _ call _ _ _ _ => hclear 4 (by decide) call, fun _ call _ _ _ _ => hclear 5 (by decide) call,
    fun _ call _ _ _ _ => hclear 6 (by decide) call, fun _ h _ hheld => ?_, trivial⟩
  have hnone := Option.isNone_iff_eq_none.mp hfree
  cases hnone.symm.trans hheld

/-- The report is authenticated, the token rotated, and the rotation returns before the report is
stored. -/
def overtaking : List (Action Exact) :=
  [.accept presented, .proceed .ok, .rotate 1 .ok, .rotated 0, .proceed .ok, .proceed .ok]

/-- **The old token gets a report in**: it is stored after the rotation has returned. -/
theorem rotated_installed :
    ¬ ∀ as : List (Action Exact), ∀ i ∈ (run step (initial .oneServer) as).installed,
      i.revoked = false := by
  intro h
  have hstored : (⟨.stored, 0, 1, true⟩ : Installed) ∈
      (run step (initial .oneServer) overtaking).installed := by decide +kernel
  exact Bool.noConfusion (h overtaking _ hstored)

end Coordinator

end TinyProbe.Live
