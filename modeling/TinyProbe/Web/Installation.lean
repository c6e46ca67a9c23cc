import TinyProbe.Web.ServerCollection

/-!
# What the collection installs

Every completion settles one call and moves the revision exactly when it applies a mutation
(`Settles`). The markers of the hook are what they stand for (`Inv`): `latestServerGeneration` has of
every server the request most recently begun, and `pendingByServer` has it while it is under way. The
revision and the latest list together only grow, with everything that makes a list request stale
(`mark`), so comparing them with what they were is enough.
-/

namespace TinyProbe.Web.Collection

open Run

/-- A completion: a call settles. -/
structure Settles (s s' : Collection) (generation : Nat) (kind : Kind) (ending : Ending) : Prop where
  underWay : s.underWay? generation = some kind
  ended : ending ≠ .pending
  calls : s'.calls = Function.update s.calls generation (some ⟨kind, ending⟩)
  nextGeneration : s'.nextGeneration = s.nextGeneration
  latestListGeneration : s'.latestListGeneration = s.latestListGeneration
  latestServerGeneration : s'.latestServerGeneration = s.latestServerGeneration
  revision : s'.mutationRevision =
    if ending = .applied true then s.mutationRevision + 1 else s.mutationRevision
  pending : s'.pendingByServer = kind.request?.elim s.pendingByServer fun request =>
    (s.finishServerRequest request.1 generation).pendingByServer

/-- The markers of the hook. -/
structure Inv (s : Collection) : Prop where
  known : ∀ g call, s.calls g = some call → g ≤ s.nextGeneration
  list_le : s.latestListGeneration ≤ s.nextGeneration
  revision_le : ∀ g revisionAtStart, s.underWay? g = some (.load revisionAtStart) →
    revisionAtStart ≤ s.mutationRevision
  latest : ∀ id g, AList.lookup id s.latestServerGeneration = some g ↔ ∃ action, s.Latest id g action
  pending : ∀ id p, AList.lookup id s.pendingByServer = some p ↔
    s.Latest id p.generation p.action ∧ (s.underWay? p.generation).isSome

section Laws

variable {s s' : Collection} {g g' : Nat} {kind : Kind} {ending : Ending} {id : Int}
  {action : ServerPendingAction}

/-- Setting a call leaves the others. -/
theorem calls_setCall (call : Call) :
    (s.setCall g call).calls g' = if g' = g then some call else s.calls g' :=
  Function.update_apply ..

/-- A call under way is pending. -/
theorem calls_of_underWay? (h : s.underWay? g = some kind) : s.calls g = some ⟨kind, .pending⟩ := by
  unfold underWay? at h
  split at h
  next heq =>
    cases h
    exact heq
  next => cases h

/-- Its request is that of its kind. -/
theorem request?_of_underWay? (h : s.underWay? g = some kind) : s.request? g = kind.request? := by
  rw [request?, calls_of_underWay? h, Option.bind_some]

private theorem lookup_finishServerRequest (id' : Int) (p : PendingServerRequest) :
    AList.lookup id (s.finishServerRequest id' g).pendingByServer = some p ↔
      AList.lookup id s.pendingByServer = some p ∧ (id = id' → p.generation ≠ g) := by
  unfold finishServerRequest
  split
  next hnone =>
    refine ⟨fun h => ⟨h, ?_⟩, And.left⟩
    rintro rfl
    rw [hnone] at h
    cases h
  next current hcurrent =>
    split
    next hne =>
      refine ⟨fun h => ⟨h, ?_⟩, And.left⟩
      rintro rfl
      rw [hcurrent] at h
      cases h
      exact hne
    next heq =>
      rw [Map.lookup_erase]
      split
      next hid =>
        subst hid
        apply iff_of_false (fun h => by cases h)
        rintro ⟨h, hne⟩
        rw [hcurrent] at h
        cases h
        exact hne rfl (not_not.mp heq)
      next hid => exact (and_iff_left fun h => absurd h hid).symm

/-- `finishServerRequest` changes what is pending, and only that. -/
theorem finishServerRequest_eq (id : Int) (g : Nat) : s.finishServerRequest id g =
    { s with pendingByServer := (s.finishServerRequest id g).pendingByServer } := by
  unfold finishServerRequest
  split
  next => rfl
  next =>
    split
    next => rfl
    next => rfl

private theorem pending_finishServerRequest (h : s'.pendingByServer = s.pendingByServer) :
    (s'.finishServerRequest id g).pendingByServer = (s.finishServerRequest id g).pendingByServer := by
  unfold finishServerRequest
  rw [h]
  split
  next => exact h
  next =>
    split
    next => exact h
    next => rfl

/-! ## Completions -/

theorem settles_finish {t : Collection} (h : s.underWay? g = some kind)
    (hkind : kind.request? = some (id, action)) (hended : ending ≠ .pending)
    (hcalls : t.calls = s.calls) (hpending : t.pendingByServer = s.pendingByServer)
    (hnext : t.nextGeneration = s.nextGeneration)
    (hlist : t.latestListGeneration = s.latestListGeneration)
    (hserver : t.latestServerGeneration = s.latestServerGeneration)
    (hrevision : t.mutationRevision =
      if ending = .applied true then s.mutationRevision + 1 else s.mutationRevision) :
    Settles s ((t.setCall g ⟨kind, ending⟩).finishServerRequest id g) g kind ending := by
  have hfinish : ((t.setCall g ⟨kind, ending⟩).finishServerRequest id g).pendingByServer =
      (s.finishServerRequest id g).pendingByServer := pending_finishServerRequest hpending
  rw [finishServerRequest_eq, hfinish]
  exact ⟨h, hended, congrArg (Function.update · g _) hcalls, hnext, hlist, hserver, hrevision,
    by rw [hkind]; rfl⟩

/-- A mutation that is answered settles its call, and applies when it is the latest. -/
theorem settles_mutated (h : s.underWay? g = some kind) (hkind : kind.request? = some (id, action))
    (change : List ServerRecord → List ServerRecord) :
    Settles s (s.mutated id g kind change) g kind (.applied (s.isLatestServerRequest id g)) := by
  unfold mutated
  split
  next hlatest =>
    rw [hlatest]
    exact settles_finish h hkind (fun h => by cases h) rfl rfl rfl rfl rfl (if_pos rfl).symm
  next hlatest =>
    rw [eq_false_of_ne_true hlatest]
    exact settles_finish h hkind (fun h => by cases h) rfl rfl rfl rfl rfl
      (if_neg fun h => by cases h).symm

/-- One that fails settles its call, and never applies. -/
theorem settles_mutationFailed (h : s.underWay? g = some kind)
    (hkind : kind.request? = some (id, action)) (error : String) :
    ∃ ending, Settles s (s.mutationFailed id g kind error) g kind ending ∧
      ending ≠ .applied true := by
  unfold mutationFailed
  dsimp only
  split
  next =>
    exact ⟨_, settles_finish h hkind (fun h => by cases h) rfl rfl rfl rfl rfl
      (if_neg fun h => by cases h).symm, fun h => by cases h⟩
  next =>
    exact ⟨_, settles_finish h hkind (fun h => by cases h) rfl rfl rfl rfl rfl
      (if_neg fun h => by cases h).symm, fun h => by cases h⟩

/-- The end of `loadServers`, which moves no marker. -/
theorem settles_load {t : Collection} {revisionAtStart : Nat}
    (h : s.underWay? g = some (.load revisionAtStart)) (hcalls : t.calls = s.calls)
    (hpending : t.pendingByServer = s.pendingByServer) (hnext : t.nextGeneration = s.nextGeneration)
    (hlist : t.latestListGeneration = s.latestListGeneration)
    (hserver : t.latestServerGeneration = s.latestServerGeneration)
    (hrevision : t.mutationRevision = s.mutationRevision) :
    Settles s (t.setCall g ⟨.load revisionAtStart, .returned⟩) g (.load revisionAtStart) .returned :=
  ⟨h, (fun h => by cases h), congrArg (Function.update · g _) hcalls, hnext, hlist, hserver,
    hrevision.trans (if_neg fun h => by cases h).symm, hpending⟩

/-- What an action does. -/
theorem step_cases (s : Collection) (a : Action) :
    (a = .loadServers ∧ s.step a = s.loadServers) ∨
    (∃ id action kind, a.Begins id ∧ kind.request? = some (id, action) ∧ s.Disturbs a ∧
      s.step a = s.beginServerRequest id action kind) ∨
    (∃ server, a = .addServer server ∧ s.step a = s.addServer server) ∨
    ((∀ id, ¬ a.Begins id) ∧ (s.Disturbs a ↔ s.Applies a) ∧
      (s.step a = s ∨ ∃ g kind ending, Settles s (s.step a) g kind ending)) := by
  cases a with
  | loadServers => exact Or.inl ⟨rfl, rfl⟩
  | updateServer id action =>
    exact Or.inr (Or.inl ⟨id, action, .update id action, rfl, rfl, trivial, rfl⟩)
  | removeServer id => exact Or.inr (Or.inl ⟨id, .delete, .remove id, rfl, rfl, trivial, rfl⟩)
  | addServer server => exact Or.inr (Or.inr (Or.inl ⟨server, rfl, rfl⟩))
  | listed g result =>
    refine Or.inr (Or.inr (Or.inr ⟨fun _ h => h, Iff.rfl, ?_⟩))
    simp only [step]
    split
    next revisionAtStart h =>
      refine Or.inr ⟨g, .load revisionAtStart, .returned, ?_⟩
      unfold listed
      split
      next => exact settles_load h rfl rfl rfl rfl rfl rfl
      next => exact settles_load h rfl rfl rfl rfl rfl rfl
    next => exact Or.inl rfl
  | updated g server =>
    refine Or.inr (Or.inr (Or.inr ⟨fun _ h => h, Iff.rfl, ?_⟩))
    simp only [step]
    split
    next h => exact Or.inr ⟨g, _, _, settles_mutated h rfl _⟩
    next => exact Or.inl rfl
  | removed g =>
    refine Or.inr (Or.inr (Or.inr ⟨fun _ h => h, Iff.rfl, ?_⟩))
    simp only [step]
    split
    next h => exact Or.inr ⟨g, _, _, settles_mutated h rfl _⟩
    next => exact Or.inl rfl
  | failed g error =>
    refine Or.inr (Or.inr (Or.inr ⟨fun _ h => h, Iff.rfl, ?_⟩))
    simp only [step]
    split
    next => exact Or.inl rfl
    next revisionAtStart h =>
      refine Or.inr ⟨g, .load revisionAtStart, .returned, ?_⟩
      unfold listFailed
      split
      next => exact settles_load h rfl rfl rfl rfl rfl rfl
      next => exact settles_load h rfl rfl rfl rfl rfl rfl
    next h =>
      obtain ⟨ending, hsettles, _⟩ := settles_mutationFailed h rfl error
      exact Or.inr ⟨g, _, ending, hsettles⟩
    next h =>
      obtain ⟨ending, hsettles, _⟩ := settles_mutationFailed h rfl error
      exact Or.inr ⟨g, _, ending, hsettles⟩

/-! ## The markers -/

theorem calls_settles (h : Settles s s' g kind ending) (g' : Nat) :
    s'.calls g' = if g' = g then some ⟨kind, ending⟩ else s.calls g' := by
  rw [h.calls]
  exact Function.update_apply ..

/-- What a call has requested stays known when it settles. -/
theorem request?_settles (h : Settles s s' g kind ending) (g' : Nat) :
    s'.request? g' = s.request? g' := by
  rw [request?, calls_settles h]
  split
  next heq =>
    rw [heq, request?_of_underWay? h.underWay]
    rfl
  next => rfl

/-- A call that settles is no longer under way; the others are. -/
theorem underWay?_settles (h : Settles s s' g kind ending) (g' : Nat) :
    s'.underWay? g' = if g' = g then none else s.underWay? g' := by
  rw [underWay?, calls_settles h]
  by_cases hg : g' = g
  · rw [if_pos hg, if_pos hg]
    have hended := h.ended
    cases ending with
    | pending => exact absurd rfl hended
    | returned => rfl
    | applied _ => rfl
    | thrown _ => rfl
  · rw [if_neg hg, if_neg hg]
    rfl

private theorem latest_congr (h : ∀ g, s'.request? g = s.request? g) :
    s'.Latest id g action ↔ s.Latest id g action := by
  constructor
  · intro hl
    exact ⟨h g ▸ hl.begun, fun other action' ho => hl.latest other action' ((h other).trans ho)⟩
  · intro hl
    exact ⟨(h g).trans hl.begun, fun other action' ho => hl.latest other action' (h other ▸ ho)⟩

/-- Settling a call keeps the invariant. -/
theorem Inv.settles (h : s.Inv) (hs : Settles s s' g kind ending) : s'.Inv := by
  have hlatest : ∀ id g action, s'.Latest id g action ↔ s.Latest id g action :=
    fun _ _ _ => latest_congr (request?_settles hs)
  have hgone : ∀ g', (s'.underWay? g').isSome ↔ (s.underWay? g').isSome ∧ g' ≠ g := by
    intro g'
    rw [underWay?_settles hs]
    split
    next heq => exact iff_of_false Bool.false_ne_true fun h => h.2 heq
    next hne => exact (and_iff_left hne).symm
  refine ⟨?_, ?_, ?_, ?_, ?_⟩
  · intro g' call hcall
    rw [hs.nextGeneration]
    rw [calls_settles hs] at hcall
    split at hcall
    next heq => exact h.known g' _ (heq ▸ calls_of_underWay? hs.underWay)
    next => exact h.known g' call hcall
  · rw [hs.latestListGeneration, hs.nextGeneration]
    exact h.list_le
  · intro g' revisionAtStart hg'
    rw [underWay?_settles hs] at hg'
    split at hg'
    next => cases hg'
    next =>
      have hle := h.revision_le g' revisionAtStart hg'
      rw [hs.revision]
      split
      next => exact Nat.le_succ_of_le hle
      next => exact hle
  · intro id g'
    rw [hs.latestServerGeneration, h.latest]
    exact exists_congr fun action => (hlatest id g' action).symm
  · intro id p
    -- what is pending is what was, but for the call that has settled
    have hpending : AList.lookup id s'.pendingByServer = some p ↔
        AList.lookup id s.pendingByServer = some p ∧ p.generation ≠ g := by
      rw [hs.pending]
      have hrequest := request?_of_underWay? hs.underWay
      cases hkind : kind.request? with
      | none =>
        rw [Option.elim_none]
        refine (and_iff_left_of_imp fun hp heq => ?_).symm
        have hbegun := ((h.pending id p).mp hp).1.begun
        rw [heq, hrequest, hkind] at hbegun
        cases hbegun
      | some request =>
        rw [Option.elim_some, lookup_finishServerRequest]
        refine and_congr_right fun hp => ⟨fun hne heq => ?_, fun hne _ => hne⟩
        have hbegun := ((h.pending id p).mp hp).1.begun
        rw [heq, hrequest, hkind] at hbegun
        cases hbegun
        exact hne rfl heq
    rw [hpending, h.pending, hlatest, hgone, and_assoc]

/-- A request is a new call of its kind. -/
theorem calls_begin (id : Int) (action : ServerPendingAction) (kind : Kind) (g : Nat) :
    (s.beginServerRequest id action kind).calls g =
      if g = s.nextGeneration + 1 then some ⟨kind, .pending⟩ else s.calls g :=
  calls_setCall _

/-- A listing is a new call, at the revision of the mutations so far. -/
theorem calls_loadServers (g : Nat) : s.loadServers.calls g =
    if g = s.nextGeneration + 1 then some ⟨.load s.mutationRevision, .pending⟩ else s.calls g :=
  calls_setCall _

/-- Nobody has the next generation yet. -/
theorem Inv.fresh (h : s.Inv) : s.calls (s.nextGeneration + 1) = none := by
  by_contra hne
  obtain ⟨call, hcall⟩ := Option.ne_none_iff_exists'.mp hne
  exact absurd (h.known _ call hcall) (Nat.not_succ_le_self _)

private theorem Inv.known_request? (h : s.Inv) {request : Int × ServerPendingAction}
    (hg : s.request? g = some request) : g ≤ s.nextGeneration := by
  obtain ⟨call, hcall, _⟩ := Option.bind_eq_some_iff.mp hg
  exact h.known g call hcall

/-- A generation that was given out is not given out again. -/
theorem Inv.ne_next (h : s.Inv) {request : Int × ServerPendingAction}
    (hg : s.request? g = some request) : g ≠ s.nextGeneration + 1 :=
  Nat.ne_of_lt (Nat.lt_succ_of_le (h.known_request? hg))

/-- A call that begins has the next generation and is under way. -/
theorem request?_call {call : Call}
    (hcalls : ∀ g, s'.calls g = if g = s.nextGeneration + 1 then some call else s.calls g) (g : Nat) :
    s'.request? g = if g = s.nextGeneration + 1 then call.kind.request? else s.request? g := by
  rw [request?, hcalls]
  split
  next => rfl
  next => rfl

/-- A new call is under way, and those before it stay. -/
theorem underWay?_call
    (hcalls : ∀ g, s'.calls g =
      if g = s.nextGeneration + 1 then some ⟨kind, .pending⟩ else s.calls g) (g : Nat) :
    s'.underWay? g = if g = s.nextGeneration + 1 then some kind else s.underWay? g := by
  unfold underWay?
  rw [hcalls]
  by_cases hg : g = s.nextGeneration + 1
  · rw [if_pos hg, if_pos hg]
  · rw [if_neg hg, if_neg hg]

/-- A request that begins is the latest of its server, and of the others nothing changes. -/
theorem Inv.latest_begin (h : s.Inv) {id' : Int} {action' : ServerPendingAction}
    (hkind : kind.request? = some (id', action')) :
    (s.beginServerRequest id' action' kind).Latest id g action ↔
      if id = id' then g = s.nextGeneration + 1 ∧ action = action' else s.Latest id g action := by
  have hrequest := request?_call (calls_begin (s := s) id' action' kind)
  have hself : (s.beginServerRequest id' action' kind).request? (s.nextGeneration + 1) =
      some (id', action') := by
    rw [hrequest, if_pos rfl, hkind]
  split
  next hid =>
    subst hid
    constructor
    · intro hl
      have hbegun := hl.begun
      rw [hrequest] at hbegun
      split at hbegun
      next hg =>
        rw [hkind] at hbegun
        cases hbegun
        exact ⟨hg, rfl⟩
      next =>
        have hle := hl.latest _ _ hself
        have hknown := h.known_request? hbegun
        omega
    · rintro ⟨rfl, rfl⟩
      refine ⟨hself, fun other action' hother => ?_⟩
      rw [hrequest] at hother
      split at hother
      next heq => exact Nat.le_of_eq heq
      next => exact Nat.le_succ_of_le (h.known_request? hother)
  next hid =>
    have hsame : ∀ g action, (s.beginServerRequest id' action' kind).request? g = some (id, action) ↔
        s.request? g = some (id, action) := by
      intro g action
      rw [hrequest]
      split
      next heq =>
        rw [hkind]
        refine iff_of_false (fun hbegun => ?_) fun hg => h.ne_next hg heq
        cases hbegun
        exact hid rfl
      next => exact Iff.rfl
    constructor
    · intro hl
      refine ⟨(hsame _ _).mp hl.begun, fun other action' hother => ?_⟩
      exact hl.latest other action' ((hsame _ _).mpr hother)
    · intro hl
      refine ⟨(hsame _ _).mpr hl.begun, fun other action' hother => ?_⟩
      exact hl.latest other action' ((hsame _ _).mp hother)

/-- A new request of a server is its latest. -/
theorem Inv.begin (h : s.Inv) {id : Int} {action : ServerPendingAction}
    (hkind : kind.request? = some (id, action)) : (s.beginServerRequest id action kind).Inv := by
  have hunderWay := underWay?_call (calls_begin (s := s) id action kind)
  refine ⟨?_, Nat.le_succ_of_le h.list_le, ?_, ?_, ?_⟩
  · intro g call hcall
    rw [calls_begin] at hcall
    split at hcall
    next heq => exact Nat.le_of_eq heq
    next => exact Nat.le_succ_of_le (h.known g call hcall)
  · intro g revisionAtStart hg
    rw [hunderWay] at hg
    split at hg
    next =>
      cases hg
      cases hkind
    next => exact Nat.le_succ_of_le (h.revision_le g revisionAtStart hg)
  · intro id' g
    show AList.lookup id' (s.latestServerGeneration.insert id _) = some g ↔ _
    rw [Map.lookup_insert]
    simp only [h.latest_begin hkind]
    split
    next =>
      refine ⟨fun heq => ⟨action, (Option.some.inj heq).symm, rfl⟩, ?_⟩
      rintro ⟨_, rfl, _⟩
      rfl
    next => exact h.latest id' g
  · intro id' p
    show AList.lookup id' (s.pendingByServer.insert id _) = some p ↔ _
    rw [Map.lookup_insert, h.latest_begin hkind, hunderWay]
    by_cases hid : id' = id
    · rw [if_pos hid, if_pos hid]
      constructor
      · intro heq
        cases heq
        exact ⟨⟨rfl, rfl⟩, by rw [if_pos rfl]; rfl⟩
      · rintro ⟨⟨hg, haction⟩, _⟩
        rw [← hg, ← haction]
    · rw [if_neg hid, if_neg hid, h.pending]
      refine and_congr_right fun hl => ?_
      rw [if_neg (h.ne_next hl.begun)]

/-- A new listing is the latest one. -/
theorem Inv.loadServers (h : s.Inv) : s.loadServers.Inv := by
  have hunderWay := underWay?_call (calls_loadServers (s := s))
  have hrequest : ∀ g, s.loadServers.request? g = s.request? g := by
    intro g
    rw [request?_call calls_loadServers]
    split
    next heq =>
      rw [heq, request?, h.fresh]
      rfl
    next => rfl
  refine ⟨?_, Nat.le_refl _, ?_, ?_, ?_⟩
  · intro g call hcall
    rw [calls_loadServers] at hcall
    split at hcall
    next heq => exact Nat.le_of_eq heq
    next => exact Nat.le_succ_of_le (h.known g call hcall)
  · intro g revisionAtStart hg
    rw [hunderWay] at hg
    split at hg
    next =>
      cases hg
      exact Nat.le_refl _
    next => exact h.revision_le g revisionAtStart hg
  · intro id g
    exact (h.latest id g).trans (exists_congr fun action => (latest_congr hrequest).symm)
  · intro id p
    rw [latest_congr hrequest, hunderWay]
    refine (h.pending id p).trans (and_congr_right fun hl => ?_)
    rw [if_neg (h.ne_next hl.begun)]

/-- A server is added without a call. -/
theorem Inv.addServer (h : s.Inv) (server : ServerRecord) : (s.addServer server).Inv :=
  have hlatest : ∀ id g action, (s.addServer server).Latest id g action ↔ s.Latest id g action :=
    fun _ _ _ => latest_congr fun _ => rfl
  ⟨h.known, h.list_le, fun g r hg => Nat.le_succ_of_le (h.revision_le g r hg),
    fun id g => (h.latest id g).trans (exists_congr fun action => (hlatest id g action).symm),
    fun id p => (h.pending id p).trans (and_congr_left' (hlatest id _ _).symm)⟩

/-- **Every step keeps the markers.** -/
theorem Inv.step (h : s.Inv) (a : Action) : (s.step a).Inv := by
  rcases step_cases s a with ⟨_, heq⟩ | ⟨id, action, kind, _, hkind, _, heq⟩ | ⟨server, _, heq⟩ |
    ⟨_, _, heq | ⟨g, kind, ending, hs⟩⟩
  · rw [heq]
    exact h.loadServers
  · rw [heq]
    exact h.begin hkind
  · rw [heq]
    exact h.addServer server
  · rw [heq]
    exact h
  · exact h.settles hs

/-- A new collection has no calls. -/
theorem inv_new : (new : Collection).Inv := by
  refine ⟨(fun g call h => by cases h), Nat.le_refl 0, (fun g r h => by cases h), fun id g => ?_,
    fun id p => ?_⟩
  · apply iff_of_false (fun h => by cases h)
    rintro ⟨action, hl⟩
    cases hl.begun
  · refine iff_of_false (fun h => by cases h) fun hl => ?_
    cases hl.1.begun

/-- Every run of the collection keeps the invariant. -/
theorem inv_run (as : List Action) : (run step new as).Inv :=
  run_invariant (fun _ a h => h.step a) inv_new as

/-! ## Answers -/

theorem servers_mutated (change : List ServerRecord → List ServerRecord) :
    (s.mutated id g kind change).servers =
      if AList.lookup id s.latestServerGeneration = some g then change s.servers else s.servers := by
  unfold mutated isLatestServerRequest
  by_cases hlatest : AList.lookup id s.latestServerGeneration = some g
  · rw [if_pos hlatest, if_pos (beq_iff_eq.mpr hlatest), finishServerRequest_eq]
    rfl
  · rw [if_neg hlatest, if_neg fun h => hlatest (beq_iff_eq.mp h), finishServerRequest_eq]
    rfl

private theorem servers_listed (revisionAtStart : Nat) (result : List ServerRecord) :
    (s.listed g revisionAtStart result).servers =
      if s.latestListGeneration = g ∧ s.mutationRevision = revisionAtStart then result
      else s.servers := by
  unfold listed
  split
  next hne => exact (if_neg fun h => hne h.1).symm
  next heq =>
    have heq := not_not.mp heq
    simp only [heq, true_and]

private theorem applies_settles {a : Action} (h : Settles s (s.step a) g kind ending) :
    s.Applies a ↔ ending = .applied true := by
  constructor
  · rintro ⟨g', kind', hunderWay, hcalls⟩
    rw [calls_settles h] at hcalls
    split at hcalls
    next =>
      cases hcalls
      rfl
    next =>
      rw [calls_of_underWay? hunderWay] at hcalls
      cases hcalls
  · rintro rfl
    exact ⟨g, kind, h.underWay, (calls_settles h g).trans (if_pos rfl)⟩

/-- **The marks of a list request only grow**, and with everything that makes it stale. -/
theorem Inv.marks (h : s.Inv) (a : Action) :
    s.mutationRevision ≤ (s.step a).mutationRevision ∧
      s.latestListGeneration ≤ (s.step a).latestListGeneration ∧
      (s.Disturbs a ↔ s.mutationRevision < (s.step a).mutationRevision ∨
        s.latestListGeneration < (s.step a).latestListGeneration) := by
  rcases step_cases s a with ⟨rfl, heq⟩ | ⟨id, action, kind, _, hkind, hdisturbs, heq⟩ |
    ⟨server, rfl, heq⟩ | ⟨_, hdisturbs, heq | ⟨g, kind, ending, hs⟩⟩
  · rw [heq]
    have hlt : s.latestListGeneration < s.nextGeneration + 1 := Nat.lt_succ_of_le h.list_le
    exact ⟨Nat.le_refl _, Nat.le_of_lt hlt, iff_of_true trivial (Or.inr hlt)⟩
  · rw [heq]
    exact ⟨Nat.le_succ _, Nat.le_refl _, iff_of_true hdisturbs (Or.inl (Nat.lt_succ_self _))⟩
  · rw [heq]
    exact ⟨Nat.le_succ _, Nat.le_refl _, iff_of_true trivial (Or.inl (Nat.lt_succ_self _))⟩
  · have hnot : ¬ s.Applies a := by
      rintro ⟨g, kind, hunderWay, hcalls⟩
      rw [heq, calls_of_underWay? hunderWay] at hcalls
      cases hcalls
    rw [hdisturbs, heq]
    exact ⟨Nat.le_refl _, Nat.le_refl _, iff_of_false hnot
      (not_or.mpr ⟨Nat.lt_irrefl _, Nat.lt_irrefl _⟩)⟩
  · rw [hdisturbs, applies_settles hs, hs.revision, hs.latestListGeneration]
    split
    next happlied =>
      exact ⟨Nat.le_succ _, Nat.le_refl _, iff_of_true happlied (Or.inl (Nat.lt_succ_self _))⟩
    next happlied =>
      exact ⟨Nat.le_refl _, Nat.le_refl _, iff_of_false happlied
        (not_or.mpr ⟨Nat.lt_irrefl _, Nat.lt_irrefl _⟩)⟩

private theorem Inv.marks_run (h : s.Inv) (bs : List Action) :
    s.mutationRevision ≤ (run Collection.step s bs).mutationRevision ∧
      s.latestListGeneration ≤ (run Collection.step s bs).latestListGeneration ∧
      (Guarded Collection.step (fun s a => ¬ s.Disturbs a) s bs ↔
        (run Collection.step s bs).latestListGeneration = s.latestListGeneration ∧
          (run Collection.step s bs).mutationRevision = s.mutationRevision) := by
  induction bs generalizing s with
  | nil => exact ⟨Nat.le_refl _, Nat.le_refl _, iff_of_true trivial ⟨rfl, rfl⟩⟩
  | cons a bs ih =>
    obtain ⟨hrevision, hlist, hdisturbs⟩ := h.marks a
    obtain ⟨hrevision', hlist', hguarded⟩ := ih (h.step a)
    rw [run_cons, guarded_cons, hguarded, hdisturbs]
    refine ⟨Nat.le_trans hrevision hrevision', Nat.le_trans hlist hlist', ?_⟩
    omega

/-- A call goes on to be what it is. -/
theorem Inv.kind_step (h : s.Inv) {call : Call} (hcall : s.calls g = some call) (a : Action) :
    ∃ call', (s.step a).calls g = some call' ∧ call'.kind = call.kind := by
  have hne : g ≠ s.nextGeneration + 1 := Nat.ne_of_lt (Nat.lt_succ_of_le (h.known g call hcall))
  rcases step_cases s a with ⟨_, heq⟩ | ⟨id, action, kind, _, _, _, heq⟩ | ⟨server, _, heq⟩ |
    ⟨_, _, heq | ⟨g', kind, ending, hs⟩⟩
  · exact ⟨call, by rw [heq, calls_loadServers, if_neg hne, hcall], rfl⟩
  · exact ⟨call, by rw [heq, calls_begin, if_neg hne, hcall], rfl⟩
  · exact ⟨call, by rw [heq]; exact hcall, rfl⟩
  · exact ⟨call, by rw [heq, hcall], rfl⟩
  · rw [calls_settles hs]
    split
    next heq =>
      rw [heq, calls_of_underWay? hs.underWay] at hcall
      cases hcall
      exact ⟨_, rfl, rfl⟩
    next => exact ⟨call, hcall, rfl⟩

private theorem Inv.kind_run (h : s.Inv) {call : Call} (hcall : s.calls g = some call)
    (bs : List Action) :
    ∃ call', (run Collection.step s bs).calls g = some call' ∧ call'.kind = call.kind := by
  induction bs generalizing s call with
  | nil => exact ⟨call, hcall, rfl⟩
  | cons a bs ih =>
    obtain ⟨call', hcall', hkind⟩ := h.kind_step hcall a
    obtain ⟨call'', hcall'', hkind'⟩ := ih (h.step a) hcall'
    exact ⟨call'', hcall'', hkind'.trans hkind⟩

/-- A call that is under way after some steps is what it was. -/
theorem Inv.underWay?_run (h : s.Inv) {call : Call} (hcall : s.calls g = some call)
    {bs : List Action} {kind : Kind} (hunderWay : (run Collection.step s bs).underWay? g = some kind) :
    kind = call.kind := by
  obtain ⟨call', hcall', hkind⟩ := h.kind_run hcall bs
  rw [calls_of_underWay? hunderWay] at hcall'
  cases hcall'
  exact hkind

/-- An action begins a request of one server at most. -/
theorem Action.Begins.unique {a : Action} {id' : Int} (h : a.Begins id) (h' : a.Begins id') :
    id = id' := by
  cases a with
  | updateServer _ _ => exact Eq.trans (Eq.symm h) h'
  | removeServer _ => exact Eq.trans (Eq.symm h) h'
  | loadServers => cases h
  | addServer _ => cases h
  | listed _ _ => cases h
  | updated _ _ => cases h
  | removed _ => cases h
  | failed _ _ => cases h

/-- Only what begins a request for a server moves the server's marker. -/
theorem lookup_step (s : Collection) (id : Int) (a : Action) :
    (a.Begins id ∧
      AList.lookup id (s.step a).latestServerGeneration = some (s.nextGeneration + 1)) ∨
    (¬ a.Begins id ∧ AList.lookup id (s.step a).latestServerGeneration =
      AList.lookup id s.latestServerGeneration) := by
  rcases step_cases s a with ⟨rfl, heq⟩ | ⟨id', action, kind, hbegins, _, _, heq⟩ |
    ⟨server, rfl, heq⟩ | ⟨hnot, _, heq | ⟨g, kind, ending, hs⟩⟩
  · exact Or.inr ⟨fun h => h, by rw [heq]; rfl⟩
  · have hlookup : AList.lookup id (s.step a).latestServerGeneration =
        if id = id' then some (s.nextGeneration + 1) else AList.lookup id s.latestServerGeneration := by
      rw [heq]
      exact Map.lookup_insert _ _ _ _
    by_cases hid : id = id'
    · subst hid
      exact Or.inl ⟨hbegins, hlookup.trans (if_pos rfl)⟩
    · exact Or.inr ⟨fun h => hid (h.unique hbegins), hlookup.trans (if_neg hid)⟩
  · exact Or.inr ⟨fun h => h, by rw [heq]; rfl⟩
  · exact Or.inr ⟨hnot id, by rw [heq]⟩
  · exact Or.inr ⟨hnot id, by rw [hs.latestServerGeneration]⟩

/-- **The marker of a server tells whether a later request was begun.** -/
theorem Inv.lookup_run (h : s.Inv) (hlookup : AList.lookup id s.latestServerGeneration = some g)
    (bs : List Action) :
    ∃ g', AList.lookup id (run Collection.step s bs).latestServerGeneration = some g' ∧ g ≤ g' ∧
      (g' = g ↔ ∀ b ∈ bs, ¬ b.Begins id) := by
  induction bs generalizing s g with
  | nil => exact ⟨g, hlookup, Nat.le_refl g, iff_of_true rfl fun b hb => absurd hb List.not_mem_nil⟩
  | cons a bs ih =>
    rw [List.forall_mem_cons, run_cons]
    rcases lookup_step s id a with ⟨hbegins, hnew⟩ | ⟨hnot, hsame⟩
    · obtain ⟨action, hlatest⟩ := (h.latest id g).mp hlookup
      have hle := h.known_request? hlatest.begun
      obtain ⟨g', hlookup', hle', _⟩ := ih (h.step a) hnew
      refine ⟨g', hlookup', by omega, iff_of_false (by omega) fun hall => hall.1 hbegins⟩
    · obtain ⟨g', hlookup', hle', hiff⟩ := ih (h.step a) (hsame.trans hlookup)
      exact ⟨g', hlookup', hle', hiff.trans (and_iff_right hnot).symm⟩

/-! ## The servers -/

theorem mem_replaceServer {servers : List ServerRecord} {next server : ServerRecord}
    (h : server ∈ replaceServer servers next) : ∃ old ∈ servers, old.id = server.id := by
  obtain ⟨old, hold, rfl⟩ := List.mem_map.mp h
  refine ⟨old, hold, ?_⟩
  split
  next heq => exact heq
  next => rfl

/-- A mutation that fails leaves the list. -/
theorem servers_mutationFailed (error : String) :
    (s.mutationFailed id g kind error).servers = s.servers := by
  unfold mutationFailed
  dsimp only
  rw [finishServerRequest_eq]
  rfl

/-- So does a listing that fails. -/
theorem servers_listFailed (error : String) : (s.listFailed g error).servers = s.servers := by
  unfold listFailed
  split
  next => rfl
  next => rfl

/-- A server that is not in the collection comes in by `addServer` or by a list. -/
theorem absent_step (h : ∀ server ∈ s.servers, server.id ≠ id) {a : Action}
    (hadd : ∀ server, a = .addServer server → server.id ≠ id)
    (hlist : ∀ g result, a = .listed g result → s.underWay? g = some (.load s.mutationRevision) →
      ∀ server ∈ result, server.id ≠ id) : ∀ server ∈ (s.step a).servers, server.id ≠ id := by
  cases a with
  | loadServers => exact h
  | updateServer _ _ => exact h
  | removeServer _ => exact h
  | addServer server =>
    intro item hitem
    rcases List.mem_append.mp hitem with hold | hnew
    · exact h item (List.mem_filter.mp hold).1
    · rw [List.mem_singleton.mp hnew]
      exact hadd server rfl
  | listed g result =>
    rw [step]
    split
    next revisionAtStart hunderWay =>
      show ∀ server ∈ (s.listed g revisionAtStart result).servers, server.id ≠ id
      rw [servers_listed]
      split
      next heq => exact hlist g result rfl (heq.2 ▸ hunderWay)
      next => exact h
    next => exact h
  | updated g updated =>
    rw [step]
    split
    next =>
      rw [servers_mutated]
      split
      next =>
        intro server hserver
        obtain ⟨old, hold, hid⟩ := mem_replaceServer hserver
        exact hid ▸ h old hold
      next => exact h
    next => exact h
  | removed g =>
    rw [step]
    split
    next =>
      rw [servers_mutated]
      split
      next => exact fun server hserver => h server (List.mem_filter.mp hserver).1
      next => exact h
    next => exact h
  | failed g error =>
    rw [step]
    split
    next => exact h
    next revisionAtStart _ =>
      show ∀ server ∈ (s.listFailed g error).servers, server.id ≠ id
      rw [servers_listFailed]
      exact h
    next =>
      rw [servers_mutationFailed]
      exact h
    next =>
      rw [servers_mutationFailed]
      exact h

/-- The call that settles as a removal does is the one that was not settled before. -/
theorem eq_of_settles {call : Call} (hs : Settles s s' g' kind ending)
    (hbefore : s.calls g ≠ some call) (hafter : s'.calls g = some call) :
    g = g' ∧ call = ⟨kind, ending⟩ := by
  rw [calls_settles hs] at hafter
  split at hafter
  next heq => exact ⟨heq, (Option.some.inj hafter).symm⟩
  next => exact absurd hafter hbefore

/-- The answer to a removal makes its call resolve with `applied: true` only if it was the latest
request for the server, which it then takes out. -/
private theorem removed_answer {g' : Nat}
    (hbefore : s.calls g ≠ some ⟨.remove id, .applied true⟩)
    (hafter : (s.step (.removed g')).calls g = some ⟨.remove id, .applied true⟩) :
    g' = g ∧ s.mutationRevision < (s.step (.removed g')).mutationRevision ∧
      ∀ server ∈ (s.step (.removed g')).servers, server.id ≠ id := by
  rw [step] at hafter
  split at hafter
  next serverID hunderWay =>
    have hs := settles_mutated hunderWay rfl fun current =>
      current.filter fun server => server.id != serverID
    obtain ⟨rfl, hcall⟩ := eq_of_settles hs hbefore hafter
    injection hcall with hkind hending
    cases hkind
    have hlatest : AList.lookup id s.latestServerGeneration = some g :=
      beq_iff_eq.mp (Ending.applied.inj hending).symm
    have hstep : s.step (.removed g) = s.mutated id g (.remove id) fun current =>
        current.filter fun server => server.id != id := by
      rw [step, hunderWay]
    rw [hstep]
    refine ⟨rfl, ?_, ?_⟩
    · rw [hs.revision, if_pos hending.symm]
      exact Nat.lt_succ_self _
    · rw [servers_mutated, if_pos hlatest]
      intro server hserver
      exact bne_iff_ne.mp (List.mem_filter.mp hserver).2
  next => exact absurd hafter hbefore

/-- A request that fails makes no call resolve with `applied: true`. -/
private theorem failed_not_applied {g' : Nat} {error : String}
    (hbefore : s.calls g ≠ some ⟨.remove id, .applied true⟩) :
    (s.step (.failed g' error)).calls g ≠ some ⟨.remove id, .applied true⟩ := by
  intro hafter
  rw [step] at hafter
  split at hafter
  next => exact hbefore hafter
  next =>
    rw [calls_setCall] at hafter
    split at hafter
    next => cases hafter
    next =>
      unfold listFailed at hafter
      split at hafter
      next => exact hbefore hafter
      next => exact hbefore hafter
  next hunderWay =>
    obtain ⟨ending, hs, _⟩ := settles_mutationFailed hunderWay rfl error
    have hcall := (eq_of_settles hs hbefore hafter).2
    cases hcall
  next hunderWay =>
    obtain ⟨ending, hs, hended⟩ := settles_mutationFailed hunderWay rfl error
    have hcall := (eq_of_settles hs hbefore hafter).2
    cases hcall
    exact hended rfl

/-- A removal that resolves with `applied: true` has taken the server out, and moved the revision. -/
theorem removed_step {a : Action} (hbefore : s.calls g ≠ some ⟨.remove id, .applied true⟩)
    (hafter : (s.step a).calls g = some ⟨.remove id, .applied true⟩) :
    a = .removed g ∧ s.mutationRevision < (s.step a).mutationRevision ∧
      ∀ server ∈ (s.step a).servers, server.id ≠ id := by
  cases a with
  | loadServers =>
    rw [step, calls_loadServers] at hafter
    split at hafter
    next => cases hafter
    next => exact absurd hafter hbefore
  | updateServer _ _ =>
    rw [step, calls_begin] at hafter
    split at hafter
    next => cases hafter
    next => exact absurd hafter hbefore
  | removeServer _ =>
    rw [step, calls_begin] at hafter
    split at hafter
    next => cases hafter
    next => exact absurd hafter hbefore
  | addServer _ => exact absurd hafter hbefore
  | listed g' result =>
    rw [step] at hafter
    split at hafter
    next =>
      rw [calls_setCall] at hafter
      split at hafter
      next => cases hafter
      next =>
        unfold listed at hafter
        split at hafter
        next => exact absurd hafter hbefore
        next => exact absurd hafter hbefore
    next => exact absurd hafter hbefore
  | updated g' updated =>
    rw [step] at hafter
    split at hafter
    next hunderWay =>
      have hcall := (eq_of_settles (settles_mutated hunderWay rfl _) hbefore hafter).2
      cases hcall
    next => exact absurd hafter hbefore
  | removed g' =>
    obtain ⟨rfl, hremoved⟩ := removed_answer hbefore hafter
    exact ⟨rfl, hremoved⟩
  | failed g' error => exact absurd hafter (failed_not_applied hbefore)

/-- A call whose request is under way was under way before, unless it has just begun. -/
theorem underWay?_back {a : Action} (hg : g ≤ s.nextGeneration)
    (hunderWay : (s.step a).underWay? g = some kind) : s.underWay? g = some kind := by
  have hne : g ≠ s.nextGeneration + 1 := Nat.ne_of_lt (Nat.lt_succ_of_le hg)
  rcases step_cases s a with ⟨_, heq⟩ | ⟨id, action, kind, _, _, _, heq⟩ | ⟨server, _, heq⟩ |
    ⟨_, _, heq | ⟨g', kind, ending, hs⟩⟩
  · rwa [heq, underWay?_call calls_loadServers, if_neg hne] at hunderWay
  · rwa [heq, underWay?_call (calls_begin id action kind), if_neg hne] at hunderWay
  · rw [heq] at hunderWay
    exact hunderWay
  · rwa [heq] at hunderWay
  · rw [underWay?_settles hs] at hunderWay
    split at hunderWay
    next => cases hunderWay
    next => exact hunderWay

/-- A call is what it was, or has just begun. -/
theorem calls_cases {a : Action} {call : Call} (hcall : (s.step a).calls g = some call) :
    (∃ old, s.calls g = some old ∧ old.kind = call.kind) ∨
      (g = s.nextGeneration + 1 ∧
        ∀ id action, call.kind.request? = some (id, action) → a.Begins id) := by
  rcases step_cases s a with ⟨_, heq⟩ | ⟨id, action, kind, hbegins, hkind, _, heq⟩ |
    ⟨server, _, heq⟩ | ⟨_, _, heq | ⟨g', kind, ending, hs⟩⟩
  · rw [heq, calls_loadServers] at hcall
    split at hcall
    next hg =>
      cases hcall
      exact Or.inr ⟨hg, fun id action h => by cases h⟩
    next => exact Or.inl ⟨call, hcall, rfl⟩
  · rw [heq, calls_begin] at hcall
    split at hcall
    next hg =>
      cases hcall
      refine Or.inr ⟨hg, fun id' action' h => ?_⟩
      rw [hkind] at h
      cases h
      exact hbegins
    next => exact Or.inl ⟨call, hcall, rfl⟩
  · rw [heq] at hcall
    exact Or.inl ⟨call, hcall, rfl⟩
  · rw [heq] at hcall
    exact Or.inl ⟨call, hcall, rfl⟩
  · rw [calls_settles hs] at hcall
    split at hcall
    next hg =>
      cases hcall
      exact Or.inl ⟨⟨kind, .pending⟩, hg ▸ calls_of_underWay? hs.underWay, rfl⟩
    next => exact Or.inl ⟨call, hcall, rfl⟩

end Laws

/-! ## What never is stale -/

/-- What becomes of the answer of a list request sent from `s`, when `bs` came in between: it is
installed if nothing among them disturbs it, and only then. -/
structure ListCurrent (s : Collection) (bs : List Action) : Prop where
  installed : Guarded step (fun s a => ¬ s.Disturbs a) s.loadServers bs →
    (run step s.loadServers bs).underWay? (s.nextGeneration + 1) ≠ none → ∀ result,
      ((run step s.loadServers bs).step (.listed (s.nextGeneration + 1) result)).servers = result
  kept : ¬ Guarded step (fun s a => ¬ s.Disturbs a) s.loadServers bs → ∀ result,
    ((run step s.loadServers bs).step (.listed (s.nextGeneration + 1) result)).servers =
      (run step s.loadServers bs).servers

/-- The same of an update, and of later requests for its server. -/
structure UpdateCurrent (s : Collection) (id : Int) (action : ServerPendingAction)
    (bs : List Action) : Prop where
  installed : (∀ b ∈ bs, ¬ b.Begins id) →
    (run step s (.updateServer id action :: bs)).underWay? (s.nextGeneration + 1) ≠ none → ∀ updated,
      ((run step s (.updateServer id action :: bs)).step
          (.updated (s.nextGeneration + 1) updated)).servers =
        replaceServer (run step s (.updateServer id action :: bs)).servers updated
  kept : (∃ b ∈ bs, b.Begins id) → ∀ updated,
    ((run step s (.updateServer id action :: bs)).step
        (.updated (s.nextGeneration + 1) updated)).servers =
      (run step s (.updateServer id action :: bs)).servers

/-- `pendingByServer` has an entry for a server exactly when the most recently begun request for it has
not settled, and then it is of this request. -/
def PendingCurrent (s : Collection) : Prop := ∀ id p,
  AList.lookup id s.pendingByServer = some p ↔
    s.Latest id p.generation p.action ∧ (s.underWay? p.generation).isSome

section Laws

variable {s : Collection}

/-- A listing replaces the list if it is the latest and no mutation came since it was sent. -/
theorem servers_step_listed {g revisionAtStart : Nat}
    (hkind : ∀ kind, s.underWay? g = some kind → kind = .load revisionAtStart)
    (result : List ServerRecord) : (s.step (.listed g result)).servers =
      if s.underWay? g ≠ none ∧ s.latestListGeneration = g ∧ s.mutationRevision = revisionAtStart then
        result
      else s.servers := by
  cases hunderWay : s.underWay? g with
  | none =>
    rw [if_neg fun h => h.1 rfl, step, hunderWay]
  | some kind =>
    obtain rfl := hkind kind hunderWay
    rw [step, hunderWay]
    refine (servers_listed revisionAtStart result).trans (if_congr ?_ rfl rfl)
    exact (and_iff_right fun h => by cases h).symm

private theorem servers_step_updated {g : Nat} {id : Int} {action : ServerPendingAction}
    (hkind : ∀ kind, s.underWay? g = some kind → kind = .update id action) (updated : ServerRecord) :
    (s.step (.updated g updated)).servers =
      if s.underWay? g ≠ none ∧ AList.lookup id s.latestServerGeneration = some g then
        replaceServer s.servers updated
      else s.servers := by
  cases hunderWay : s.underWay? g with
  | none =>
    rw [if_neg fun h => h.1 rfl, step, hunderWay]
  | some kind =>
    obtain rfl := hkind kind hunderWay
    rw [step, hunderWay]
    refine (servers_mutated _).trans (if_congr ?_ rfl rfl)
    exact (and_iff_right fun h => by cases h).symm

/-- What the invariant says of listings. -/
theorem Inv.listCurrent (h : s.Inv) (bs : List Action) : s.ListCurrent bs := by
  have hload := h.loadServers
  have hcall : s.loadServers.calls (s.nextGeneration + 1) = some ⟨.load s.mutationRevision, .pending⟩ :=
    (calls_loadServers _).trans (if_pos rfl)
  have hguarded := (hload.marks_run bs).2.2
  have hstep := fun result => servers_step_listed (s := run Collection.step s.loadServers bs)
    (fun kind hkind => hload.underWay?_run hcall hkind) result
  refine ⟨fun hquiet hunderWay result => ?_, fun hloud result => ?_⟩
  · rw [hstep, if_pos ⟨hunderWay, hguarded.mp hquiet⟩]
  · rw [hstep, if_neg fun hand => hloud (hguarded.mpr hand.2)]

/-- What it says of updates. -/
theorem Inv.updateCurrent (h : s.Inv) (id : Int) (action : ServerPendingAction) (bs : List Action) :
    s.UpdateCurrent id action bs := by
  have hbegin := h.step (.updateServer id action)
  have hcall : (s.step (.updateServer id action)).calls (s.nextGeneration + 1) =
      some ⟨.update id action, .pending⟩ := (calls_begin id action _ _).trans (if_pos rfl)
  have hlookup : AList.lookup id (s.step (.updateServer id action)).latestServerGeneration =
      some (s.nextGeneration + 1) := (Map.lookup_insert _ _ _ _).trans (if_pos rfl)
  obtain ⟨g', hlookup', _, hiff⟩ := hbegin.lookup_run hlookup bs
  have hstep := fun updated =>
    servers_step_updated (s := run Collection.step s (.updateServer id action :: bs))
      (fun kind hkind => hbegin.underWay?_run hcall hkind) updated
  refine ⟨fun hquiet hunderWay updated => ?_, fun hloud updated => ?_⟩
  · rw [hiff.mpr hquiet] at hlookup'
    exact (hstep updated).trans (if_pos ⟨hunderWay, hlookup'⟩)
  · refine (hstep updated).trans (if_neg ?_)
    rintro ⟨_, heq⟩
    rw [run_cons, hlookup'] at heq
    obtain ⟨b, hb, hbegins⟩ := hloud
    exact hiff.mp (Option.some.inj heq) b hb hbegins

end Laws

end TinyProbe.Web.Collection
