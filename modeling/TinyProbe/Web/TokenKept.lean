import TinyProbe.Web.OneTimeToken

/-!
# No token is lost

No token that was answered is lost, and none replaces another (`token_kept`), whatever is clicked
and in whatever order the answers come.

A rotation would be lost if another request for its server began on its page before its answer. But
its row is busy for as long: on the page that has begun it for the request under way, and on a page
mounted later for the request of the dashboard (`inv_mutate`). So it is the latest request of its
server when it is answered, and its answer applies (`Rotating.applied`).
-/

namespace TinyProbe.Web

open Run Collection

/-! ## A rotation under way -/

namespace Collection

/-- The rotation is under way, and no other request for its server has begun since. -/
def Rotating (c : Collection) (generation : Nat) (serverID : Int) : Prop :=
  c.underWay? generation = some (.update serverID .rotate) ∧
    c.isLatestServerRequest serverID generation = true

section Rotating

variable {c c' : Collection} {g g' : Nat} {id : Int}

/-- A rotation under way is an older request than the next one. -/
theorem Rotating.ne_next (h : c.Rotating g id) (hinv : c.Inv) : g ≠ c.nextGeneration + 1 := by
  have hknown := hinv.known g _ (calls_of_underWay? h.1)
  omega

/-- The request that `rotate` begins is the latest of its server. -/
theorem rotating_begin (c : Collection) (id : Int) :
    (c.step (.updateServer id .rotate)).Rotating (c.nextGeneration + 1) id := by
  refine ⟨?_, ?_⟩
  · exact (underWay?_call (calls_begin id .rotate (.update id .rotate)) _).trans (if_pos rfl)
  · exact beq_iff_eq.mpr ((Map.lookup_insert _ _ _ _).trans (if_pos rfl))

/-- A request for another server begins. -/
theorem Rotating.begin (h : c.Rotating g id) (hinv : c.Inv) {id' : Int} (hne : id ≠ id')
    (action : ServerPendingAction) (kind : Kind) :
    (c.beginServerRequest id' action kind).Rotating g id := by
  refine ⟨?_, ?_⟩
  · rw [underWay?_call (calls_begin id' action kind), if_neg (h.ne_next hinv)]
    exact h.1
  · have hlatest := beq_iff_eq.mp h.2
    exact beq_iff_eq.mpr ((Map.lookup_insert _ _ _ _).trans ((if_neg hne).trans hlatest))

/-- Loading the list is no request for the server, so it does not supersede the rotation. -/
theorem Rotating.load (h : c.Rotating g id) (hinv : c.Inv) : c.loadServers.Rotating g id := by
  refine ⟨?_, h.2⟩
  rw [underWay?_call calls_loadServers, if_neg (h.ne_next hinv)]
  exact h.1

/-- The end of another request leaves the rotation under way. -/
theorem Rotating.settles (h : c.Rotating g id) {kind : Kind} {ending : Ending}
    (hs : Settles c c' g' kind ending) (hne : g ≠ g') : c'.Rotating g id := by
  refine ⟨?_, ?_⟩
  · rw [underWay?_settles hs, if_neg hne]
    exact h.1
  · rw [isLatestServerRequest, hs.latestServerGeneration]
    exact h.2

/-- **The answer to a rotation applies.** -/
theorem Rotating.applied (h : c.Rotating g id) (server : ServerRecord) :
    ((c.step (.updated g server)).calls g).map Call.ending = some (.applied true) := by
  simp only [step, h.1]
  rw [mutated, if_pos h.2, finishServerRequest_eq]
  simp [setCall]

end Rotating

end Collection

namespace Dashboard

/-- An answer settles its own call. -/
theorem settles_answer (c : Collection) (g : Nat) (a : Answer) :
    c.step (a.action g) = c ∨ ∃ kind ending, Settles c (c.step (a.action g)) g kind ending := by
  cases a with
  | listed result =>
    simp only [Answer.action, Collection.step]
    split
    next revisionAtStart h =>
      refine Or.inr ⟨.load revisionAtStart, .returned, ?_⟩
      unfold Collection.listed
      split
      next => exact settles_load h rfl rfl rfl rfl rfl rfl
      next => exact settles_load h rfl rfl rfl rfl rfl rfl
    next => exact Or.inl rfl
  | updated server =>
    simp only [Answer.action, Collection.step]
    split
    next h => exact Or.inr ⟨_, _, settles_mutated h rfl _⟩
    next => exact Or.inl rfl
  | removed =>
    simp only [Answer.action, Collection.step]
    split
    next h => exact Or.inr ⟨_, _, settles_mutated h rfl _⟩
    next => exact Or.inl rfl
  | failed error =>
    simp only [Answer.action, Collection.step]
    split
    next => exact Or.inl rfl
    next revisionAtStart h =>
      refine Or.inr ⟨.load revisionAtStart, .returned, ?_⟩
      unfold listFailed
      split
      next => exact settles_load h rfl rfl rfl rfl rfl rfl
      next => exact settles_load h rfl rfl rfl rfl rfl rfl
    next h =>
      obtain ⟨ending, hsettles, _⟩ := settles_mutationFailed h rfl error
      exact Or.inr ⟨_, ending, hsettles⟩
    next h =>
      obtain ⟨ending, hsettles, _⟩ := settles_mutationFailed h rfl error
      exact Or.inr ⟨_, ending, hsettles⟩

/-! ## What holds of the dashboard -/

/-- The token of a call is the one that is shown. -/
def Shows (s : Dashboard) (call : Nat) (serverID : Int) (token : String) : Prop :=
  s.source = some call ∧
    ∃ shown, s.oneTimeToken = some shown ∧ shown.serverID = serverID ∧ shown.token = token

/-- The lock, the requests for tokens, and what has become of their answers. -/
structure Ledger (s : Dashboard) : Prop where
  lock : s.tokenLockRef = s.tokenLocked
  ref : s.tokenRef = s.oneTimeToken
  exclusive : s.tokenRequestPending = true → s.oneTimeToken = none
  numbered : ∀ n call, s.tokenCalls n = some call → n < s.nextCall
  outstanding : ∀ n call, s.tokenCalls n = some call → call.ending = .pending →
    s.tokenRequestPending = true ∧ s.tokenRequestServerID = call.target.serverID?
  single : ∀ n m call call', s.tokenCalls n = some call → s.tokenCalls m = some call' →
    call.ending = .pending → call'.ending = .pending → n = m
  requested : s.tokenRequestPending = true →
    ∃ n call, s.tokenCalls n = some call ∧ call.ending = .pending
  kept : ∀ n call serverID token, s.tokenCalls n = some call →
    call.ending = .answered serverID token →
      s.Shows n serverID token ∨ n ∈ s.saved ∨ n ∈ s.dropped
  used : ∀ n call, s.tokenCalls n = some call → call.ending ≠ .superseded

/-- The pages, and the rotation one of them has begun. -/
structure Rotations (s : Dashboard) : Prop where
  pages : ∀ p, (s.pages p).Inv
  mounted : ∀ p, s.mounted = some p → p < s.nextPage
  rotating : ∀ n p g id name, s.tokenCalls n = some ⟨.rotate p g id name, .pending⟩ →
    (s.pages p).Rotating g id ∧ p < s.nextPage

section Steps

variable {s s' : Dashboard}

theorem freshPage_inv : freshPage.Inv := inv_new.loadServers

@[simp] theorem pages_setPage (p i : Nat) (c : Collection) :
    (s.setPage p c).pages i = if i = p then c else s.pages i := Function.update_apply ..

@[simp] theorem pages_mount (i : Nat) :
    s.mount.pages i = if i = s.nextPage then freshPage else s.pages i := Function.update_apply ..

@[simp] theorem tokenCalls_setTokenCall (n m : Nat) (call : TokenCall) :
    (s.setTokenCall n call).tokenCalls m = if m = n then some call else s.tokenCalls m :=
  Function.update_apply ..

theorem ledger_start : start.Ledger where
  lock := rfl
  ref := rfl
  exclusive := fun _ => rfl
  numbered := fun _ _ h => by cases h
  outstanding := fun _ _ h => by cases h
  single := fun _ _ _ _ h => by cases h
  requested := fun h => by cases h
  kept := fun _ _ _ _ h => by cases h
  used := fun _ _ h => by cases h

theorem rotations_start : start.Rotations where
  pages := fun _ => freshPage_inv
  mounted := fun _ h => by cases h
  rotating := fun _ _ _ _ _ h => by cases h

/-- A page changes, and its rotation goes on. -/
theorem Rotations.setPage (h : s.Rotations) {p : Nat} {c : Collection} (hinv : c.Inv)
    (hrotating : ∀ n g id name, s.tokenCalls n = some ⟨.rotate p g id name, .pending⟩ →
      (s.pages p).Rotating g id → c.Rotating g id) : (s.setPage p c).Rotations where
  pages i := by
    rw [pages_setPage]
    split
    next => exact hinv
    next => exact h.pages i
  mounted := h.mounted
  rotating n i g id name hcall := by
    obtain ⟨hold, hlt⟩ := h.rotating n i g id name hcall
    refine ⟨?_, hlt⟩
    rw [pages_setPage]
    split
    next heq =>
      rw [heq] at hcall hold
      exact hrotating n g id name hcall hold
    next => exact hold

/-- A page that is mounted anew is another page than the rotation's. -/
theorem Rotations.mount (h : s.Rotations) : s.mount.Rotations where
  pages i := by
    rw [pages_mount]
    split
    next => exact freshPage_inv
    next => exact h.pages i
  mounted i hi := by
    cases hi
    exact Nat.lt_succ_self _
  rotating n i g id name hcall := by
    obtain ⟨hold, hlt⟩ := h.rotating n i g id name hcall
    refine ⟨?_, Nat.lt_succ_of_lt hlt⟩
    rw [pages_mount, if_neg (Nat.ne_of_lt hlt)]
    exact hold

/-- A call that is pending no longer. -/
theorem Rotations.setTokenCall (h : s.Rotations) {n : Nat} {call : TokenCall}
    (hended : call.ending ≠ .pending) : (s.setTokenCall n call).Rotations where
  pages := h.pages
  mounted := h.mounted
  rotating m i g id name hcall := by
    rw [tokenCalls_setTokenCall] at hcall
    split at hcall
    next =>
      cases hcall
      exact absurd rfl hended
    next => exact h.rotating m i g id name hcall

end Steps

/-! ## The lock -/

section Ledger

variable {s : Dashboard} {n : Nat} {target : TokenTarget}

/-- Where the pages stand is no part of it. -/
theorem Ledger.frame (h : s.Ledger) (mounted : Option Nat) (pages : Nat → Collection)
    (nextPage : Nat) (renames : Nat → Nat → Option String) :
    Ledger { s with mounted, pages, nextPage, renames } :=
  ⟨h.lock, h.ref, h.exclusive, h.numbered, h.outstanding, h.single, h.requested, h.kept, h.used⟩

/-- While a token is shown no request for another one is pending. -/
theorem Ledger.free (h : s.Ledger) (hshown : s.oneTimeToken.isSome = true) :
    s.tokenRequestPending = false := by
  by_contra hpending
  rw [h.exclusive (eq_true_of_ne_false hpending)] at hshown
  cases hshown

/-- While a token is shown or none is asked for, no request is under way. -/
theorem Ledger.none_pending (h : s.Ledger) (hpending : s.tokenRequestPending = false) {m : Nat}
    {call : TokenCall} (hcall : s.tokenCalls m = some call) : call.ending ≠ .pending := by
  intro hend
  have hout := (h.outstanding m call hcall hend).1
  rw [hpending] at hout
  cases hout

/-- **A request for a token begins** when the lock is free. -/
theorem Ledger.begin (h : s.Ledger) (hfree : s.tokenLocked = false) (target : TokenTarget) :
    Ledger { (s.startTokenRequest target.serverID?).setTokenCall s.nextCall ⟨target, .pending⟩ with
      nextCall := s.nextCall + 1 } := by
  obtain ⟨hpending, hshown⟩ := Bool.or_eq_false_iff.mp hfree
  have hnone : s.oneTimeToken = none :=
    Option.isNone_iff_eq_none.mp (Option.isSome_eq_false_iff.mp hshown)
  have hcalls : ∀ m call, (s.setTokenCall s.nextCall ⟨target, .pending⟩).tokenCalls m = some call →
      m = s.nextCall ∧ call = ⟨target, .pending⟩ ∨ s.tokenCalls m = some call := by
    intro m call hcall
    rw [tokenCalls_setTokenCall] at hcall
    split at hcall
    next heq => exact Or.inl ⟨heq, (Option.some.inj hcall).symm⟩
    next => exact Or.inr hcall
  refine ⟨rfl, h.ref, fun _ => hnone, fun m call hcall => ?_, fun m call hcall hend => ?_,
    fun m m' call call' hcall hcall' hend hend' => ?_,
    fun _ => ⟨s.nextCall, ⟨target, .pending⟩, ?_, rfl⟩,
    fun m call serverID token hcall hend => ?_, fun m call hcall => ?_⟩
  · rcases hcalls m call hcall with ⟨rfl, _⟩ | hold
    · exact Nat.lt_succ_self _
    · exact Nat.lt_succ_of_lt (h.numbered m call hold)
  · rcases hcalls m call hcall with ⟨_, rfl⟩ | hold
    · exact ⟨rfl, rfl⟩
    · exact absurd hend (h.none_pending hpending hold)
  · rcases hcalls m call hcall with ⟨rfl, _⟩ | hold
    · rcases hcalls m' call' hcall' with ⟨rfl, _⟩ | hold'
      · rfl
      · exact absurd hend' (h.none_pending hpending hold')
    · exact absurd hend (h.none_pending hpending hold)
  · exact (tokenCalls_setTokenCall _ _ _).trans (if_pos rfl)
  · rcases hcalls m call hcall with ⟨_, rfl⟩ | hold
    · cases hend
    · exact h.kept m call serverID token hold hend
  · rcases hcalls m call hcall with ⟨_, rfl⟩ | hold
    · exact fun hend => by cases hend
    · exact h.used m call hold

/-- The other calls, when the one under way has ended. -/
theorem Ledger.others (h : s.Ledger) (hcall : s.tokenCalls n = some ⟨target, .pending⟩)
    {ending : TokenEnding} {m : Nat} {call : TokenCall}
    (hm : (s.setTokenCall n ⟨target, ending⟩).tokenCalls m = some call) :
    m = n ∧ call = ⟨target, ending⟩ ∨ s.tokenCalls m = some call ∧ call.ending ≠ .pending := by
  rw [tokenCalls_setTokenCall] at hm
  split at hm
  next heq => exact Or.inl ⟨heq, (Option.some.inj hm).symm⟩
  next hne => exact Or.inr ⟨hm, fun hend => hne (h.single m n _ _ hm hcall hend rfl)⟩

/-- **A token is published** where none is shown. -/
theorem Ledger.publish (h : s.Ledger) (hcall : s.tokenCalls n = some ⟨target, .pending⟩)
    (token : OneTimeToken) :
    ((s.setTokenCall n ⟨target, .answered token.serverID token.token⟩).publishToken n
      token).Ledger := by
  have hnone := h.exclusive (h.outstanding n _ hcall rfl).1
  refine ⟨rfl, rfl, fun hpending => (by cases hpending), fun m call hm => ?_,
    fun m call hm hend => ?_, fun m m' call call' hm hm' hend hend' => ?_,
    fun hpending => (by cases hpending), fun m call serverID text hm hend => ?_,
    fun m call hm => ?_⟩
  · rcases h.others hcall hm with ⟨rfl, _⟩ | ⟨hold, _⟩
    · exact h.numbered m _ hcall
    · exact h.numbered m call hold
  · rcases h.others hcall hm with ⟨_, rfl⟩ | ⟨_, hended⟩
    · cases hend
    · exact absurd hend hended
  · rcases h.others hcall hm with ⟨_, rfl⟩ | ⟨_, hended⟩
    · cases hend
    · exact absurd hend hended
  · rcases h.others hcall hm with ⟨rfl, rfl⟩ | ⟨hold, _⟩
    · cases hend
      exact Or.inl ⟨rfl, token, rfl, rfl, rfl⟩
    · refine Or.inr ((h.kept m call serverID text hold hend).resolve_left ?_)
      rintro ⟨-, shown, hshown, -⟩
      rw [hnone] at hshown
      cases hshown
  · rcases h.others hcall hm with ⟨_, rfl⟩ | ⟨hold, _⟩
    · exact fun hend => by cases hend
    · exact h.used m call hold

/-- A request for a token fails. -/
theorem Ledger.fail (h : s.Ledger) (hcall : s.tokenCalls n = some ⟨target, .pending⟩)
    (message : String) :
    ((s.setTokenCall n ⟨target, .failed⟩).failTokenRequest message).Ledger := by
  have hnone := h.exclusive (h.outstanding n _ hcall rfl).1
  refine ⟨?_, h.ref, fun hpending => (by cases hpending), fun m call hm => ?_,
    fun m call hm hend => ?_, fun m m' call call' hm hm' hend hend' => ?_,
    fun hpending => (by cases hpending), fun m call serverID text hm hend => ?_,
    fun m call hm => ?_⟩
  · show s.tokenRef.isSome = (false || s.oneTimeToken.isSome)
    rw [h.ref, Bool.false_or]
  · rcases h.others hcall hm with ⟨rfl, _⟩ | ⟨hold, _⟩
    · exact h.numbered m _ hcall
    · exact h.numbered m call hold
  · rcases h.others hcall hm with ⟨_, rfl⟩ | ⟨_, hended⟩
    · cases hend
    · exact absurd hend hended
  · rcases h.others hcall hm with ⟨_, rfl⟩ | ⟨_, hended⟩
    · cases hend
    · exact absurd hend hended
  · rcases h.others hcall hm with ⟨_, rfl⟩ | ⟨hold, _⟩
    · cases hend
    · exact h.kept m call serverID text hold hend
  · rcases h.others hcall hm with ⟨_, rfl⟩ | ⟨hold, _⟩
    · exact fun hend => by cases hend
    · exact h.used m call hold

/-- The token is no longer shown: it was saved, or its server is deleted. -/
theorem Ledger.gone (h : s.Ledger) (hshown : s.oneTimeToken.isSome = true)
    {saved dropped : List Nat} (hsaved : s.saved ⊆ saved) (hdropped : s.dropped ⊆ dropped)
    (hsource : ∀ n, s.source = some n → n ∈ saved ∨ n ∈ dropped) :
    Ledger { s with
      tokenRef := none, tokenLockRef := false, oneTimeToken := none, source := none
      saved, dropped } where
  lock := by
    show false = (s.tokenRequestPending || false)
    rw [h.free hshown, Bool.or_false]
  ref := rfl
  exclusive := fun _ => rfl
  numbered := h.numbered
  outstanding := h.outstanding
  single := h.single
  requested := h.requested
  kept := by
    intro m call serverID token hcall hend
    rcases h.kept m call serverID token hcall hend with ⟨hm, -⟩ | hm | hm
    · exact Or.inr (hsource m hm)
    · exact Or.inr (Or.inl (hsaved hm))
    · exact Or.inr (Or.inr (hdropped hm))
  used := h.used

/-- A token that is put away counts as saved. -/
theorem Ledger.clear (h : s.Ledger) (hshown : s.oneTimeToken.isSome = true) :
    s.clearToken.Ledger := by
  refine h.gone hshown (List.subset_append_left _ _) (List.Subset.refl _) fun n hn => Or.inl ?_
  rw [hn]
  exact List.mem_append_right _ List.mem_cons_self

/-- One whose server is deleted counts as dropped. -/
theorem Ledger.deleted (h : s.Ledger) (serverID : Int) :
    (s.clearTokenForDeletedServer serverID).Ledger := by
  unfold clearTokenForDeletedServer
  split
  next heq =>
    obtain ⟨shown, hshown, -⟩ := Option.map_eq_some_iff.mp heq
    refine h.gone (by rw [hshown]; rfl) (List.Subset.refl _) (List.subset_append_left _ _)
      fun n hn => Or.inr ?_
    rw [hn]
    exact List.mem_append_right _ List.mem_cons_self
  next => exact h

/-- The token stays, under another name. -/
theorem Ledger.rename (h : s.Ledger) (serverID : Int) (serverName : String) :
    (s.renameTokenServer serverID serverName).Ledger := by
  unfold renameTokenServer
  split
  next => exact h
  next current hshown =>
    split
    next =>
      refine ⟨?_, rfl, fun hpending => ?_, h.numbered, h.outstanding, h.single, h.requested, ?_,
        h.used⟩
      · rw [h.lock, tokenLocked, tokenLocked, hshown]
        rfl
      · rw [h.exclusive hpending] at hshown
        cases hshown
      · intro m call serverID' token hcall hend
        refine (h.kept m call serverID' token hcall hend).imp_left ?_
        rintro ⟨hm, shown, heq, hid, htoken⟩
        rw [hshown] at heq
        cases heq
        exact ⟨hm, _, rfl, hid, htoken⟩
    next => exact h

end Ledger

/-! ## Every step -/

structure Inv (s : Dashboard) : Prop where
  ledger : s.Ledger
  rotations : s.Rotations

section Steps

variable {s : Dashboard} {n p : Nat} {target : TokenTarget}

/-- At first there is no token, no request and no mounted page. -/
theorem inv_start : start.Inv := ⟨ledger_start, rotations_start⟩

theorem inv_mount (h : s.Inv) : s.mount.Inv := ⟨h.ledger.frame _ _ _ _, h.rotations.mount⟩

/-- A page changes, and no rotation with it. -/
theorem inv_setPage (h : s.Inv) {c : Collection} (hinv : c.Inv)
    (hrotating : ∀ n g id name, s.tokenCalls n = some ⟨.rotate p g id name, .pending⟩ →
      (s.pages p).Rotating g id → c.Rotating g id) : (s.setPage p c).Inv :=
  ⟨h.ledger.frame _ _ _ _, h.rotations.setPage hinv hrotating⟩

theorem inv_create (h : s.Inv) (p : Nat) : (s.create p).Inv := by
  unfold create
  split
  next => exact h
  next hfree =>
    have hunlocked : s.tokenLocked = false := by
      rw [not_or, not_or] at hfree
      exact eq_false_of_ne_true hfree.2.1
    refine ⟨h.ledger.begin hunlocked (.create p), h.rotations.pages, h.rotations.mounted, ?_⟩
    intro m i g id name hcall
    have hcall' := (tokenCalls_setTokenCall _ _ _).symm.trans hcall
    split at hcall'
    next => cases hcall'
    next => exact h.rotations.rotating m i g id name hcall'

/-- A rotation begins on a mounted page, and only if the lock is free. -/
theorem inv_rotate (h : s.Inv) (hp : p < s.nextPage) (server : ServerRecord) :
    (s.rotate p server).Inv := by
  unfold rotate
  split
  next => exact h
  next hfree =>
    have hunlocked : s.tokenLocked = false := by
      rw [not_or, not_or] at hfree
      exact eq_false_of_ne_true hfree.2.1
    have hbegun := (h.ledger.frame s.mounted (Function.update s.pages p
      ((s.pages p).step (.updateServer server.id .rotate))) s.nextPage s.renames).begin hunlocked
        (.rotate p ((s.pages p).nextGeneration + 1) server.id server.name)
    refine ⟨hbegun, fun i => ?_, h.rotations.mounted, fun m i g id name hcall => ?_⟩
    · refine (congrArg Collection.Inv (pages_setPage p i _)).mpr ?_
      split
      next => exact (h.rotations.pages p).step _
      next => exact h.rotations.pages i
    · have hcall' := (tokenCalls_setTokenCall _ _ _).symm.trans hcall
      split at hcall'
      next =>
        cases hcall'
        refine ⟨?_, hp⟩
        exact (congrArg (Rotating · _ server.id) ((pages_setPage p p _).trans (if_pos rfl))).mpr
          (rotating_begin (s.pages p) server.id)
      next =>
        exact absurd rfl (h.ledger.none_pending (Bool.or_eq_false_iff.mp hunlocked).1 hcall')

/-- **The row of a rotation is busy**, so another request is for another server. -/
theorem inv_mutate (h : s.Inv) (server : ServerRecord) {a : Collection.Action}
    {action : ServerPendingAction} {kind : Kind}
    (ha : (s.pages p).step a = (s.pages p).beginServerRequest server.id action kind)
    (name : Option String) : (s.mutate p server a name).Inv := by
  unfold mutate
  split
  next => exact h
  next hidle =>
    have hset : (s.setPage p ((s.pages p).step a)).Inv := by
      refine inv_setPage h ((h.rotations.pages p).step a) fun m g id name hcall hrotating => ?_
      rw [ha]
      refine hrotating.begin (h.rotations.pages p) (fun heq => hidle ?_) action kind
      obtain ⟨hpending, hserver⟩ := h.ledger.outstanding m _ hcall rfl
      unfold rowBusy
      rw [hpending, hserver, heq]
      simp [TokenTarget.serverID?]
    exact ⟨hset.ledger.frame _ _ _ _,
      hset.rotations.pages, hset.rotations.mounted, hset.rotations.rotating⟩

theorem inv_settled (h : s.Inv) (g : Nat) (kind : Kind) (ending : Option Ending) :
    (s.settled p g kind ending).Inv := by
  unfold settled
  split
  next id =>
    refine ⟨h.ledger.rename _ _, ?_⟩
    unfold renameTokenServer
    split
    next => exact h.rotations
    next =>
      split
      next => exact ⟨h.rotations.pages, h.rotations.mounted, h.rotations.rotating⟩
      next => exact h.rotations
  next id =>
    refine ⟨h.ledger.deleted _, ?_⟩
    unfold clearTokenForDeletedServer
    split
    next => exact ⟨h.rotations.pages, h.rotations.mounted, h.rotations.rotating⟩
    next => exact h.rotations
  next => exact h

/-- The answer to another request of a page leaves the rotation under way. -/
theorem inv_answer (h : s.Inv) (p g : Nat) (a : Answer) : (s.answer p g a).Inv := by
  unfold answer
  split
  next => exact h
  next => exact h
  next kind hnot hunder =>
    refine inv_settled (inv_setPage h ((h.rotations.pages p).step _) ?_) g kind _
    intro m g' id name _ hrotating
    rcases settles_answer (s.pages p) g a with heq | ⟨kind', ending, hsettles⟩
    · rwa [heq]
    · refine hrotating.settles hsettles fun heq => ?_
      have hsame := hrotating.1
      rw [heq, hunder] at hsame
      cases hsame
      exact hnot id rfl

/-- When the one request has ended, no page has a rotation. -/
theorem inv_ended (h : s.Inv) (hcall : s.tokenCalls n = some ⟨target, .pending⟩) {c : Collection}
    (hinv : c.Inv) (ending : TokenEnding) (hended : ending ≠ .pending) :
    ((s.setPage p c).setTokenCall n ⟨target, ending⟩).Rotations where
  pages i := by
    refine (congrArg Collection.Inv (pages_setPage p i c)).mpr ?_
    split
    next => exact hinv
    next => exact h.rotations.pages i
  mounted := h.rotations.mounted
  rotating m i g id name hm := by
    rcases h.ledger.others hcall hm with ⟨_, heq⟩ | ⟨_, hpending⟩
    · cases heq
      exact absurd rfl hended
    · exact absurd rfl hpending

/-- The token of a new server is shown, since its request was the only one pending. -/
theorem inv_created (h : s.Inv) (hcall : s.tokenCalls n = some ⟨.create p, .pending⟩)
    (server : ServerRecord) (token : String) : (s.created n p server token).Inv := by
  have hledger : (s.setPage p ((s.pages p).step (.addServer server))).Ledger :=
    h.ledger.frame _ _ _ _
  have hended := inv_ended (p := p) h hcall ((h.rotations.pages p).step (.addServer server))
    (.answered server.id token) fun heq => by cases heq
  exact ⟨hledger.publish hcall ⟨server.id, server.name, token, .create⟩,
    Rotations.mount ⟨hended.pages, hended.mounted, hended.rotating⟩⟩

/-- **The answer to a rotation is published.** -/
theorem inv_rotated (h : s.Inv) {g : Nat} {id : Int} {name : String}
    (hcall : s.tokenCalls n = some ⟨.rotate p g id name, .pending⟩) (server : ServerRecord)
    (token : String) : (s.rotated n p g id name server token).Inv := by
  have happlied := (h.rotations.rotating n p g id name hcall).1.applied server
  have hledger : (s.setPage p ((s.pages p).step (.updated g server))).Ledger :=
    h.ledger.frame _ _ _ _
  have hended := inv_ended (p := p) h hcall ((h.rotations.pages p).step (.updated g server))
    (.answered id token) fun heq => by cases heq
  unfold rotated
  dsimp only
  rw [if_pos happlied]
  exact ⟨hledger.publish hcall ⟨id, name, token, .rotate id⟩,
    Rotations.mount ⟨hended.pages, hended.mounted, hended.rotating⟩⟩

/-- A request that fails unlocks, and leaves no token behind. -/
theorem inv_refused (h : s.Inv) (hcall : s.tokenCalls n = some ⟨target, .pending⟩)
    (error : String) : (s.refused n error target).Inv := by
  cases target with
  | create p =>
    have hrotations : (s.setTokenCall n ⟨.create p, .failed⟩).Rotations :=
      h.rotations.setTokenCall fun heq => by cases heq
    exact ⟨h.ledger.fail hcall error, hrotations.pages, hrotations.mounted, hrotations.rotating⟩
  | rotate p g id name =>
    have hledger : (s.setPage p ((s.pages p).step (.failed g error))).Ledger :=
      h.ledger.frame _ _ _ _
    have hended := inv_ended (p := p) h hcall ((h.rotations.pages p).step (.failed g error))
      .failed fun heq => by cases heq
    exact ⟨hledger.fail hcall _, hended.pages, hended.mounted, hended.rotating⟩

/-- What is done on a row of the mounted page. -/
theorem inv_onRow (h : s.Inv) (serverID : Int) {f : Nat → ServerRecord → Dashboard}
    (hf : ∀ p server, p < s.nextPage → (f p server).Inv) : (s.onRow serverID f).Inv := by
  unfold onRow
  split
  next => exact h
  next p hp =>
    split
    next => exact h
    next server _ => exact hf p server (h.rotations.mounted p hp)

/-- Every step of the dashboard keeps the ledger and the rotations. -/
theorem inv_step (h : s.Inv) (a : Action) : (s.step a).Inv := by
  cases a with
  | opened =>
    unfold step
    dsimp only
    split
    next => exact inv_mount h
    next => exact h
  | left =>
    exact ⟨h.ledger.frame none s.pages s.nextPage s.renames, h.rotations.pages,
      (fun _ heq => by cases heq), h.rotations.rotating⟩
  | reload =>
    unfold step
    dsimp only
    split
    next => exact h
    next p _ =>
      exact inv_setPage h ((h.rotations.pages p).step .loadServers) fun _ _ _ _ _ hrotating =>
        hrotating.load (h.rotations.pages p)
  | create =>
    unfold step
    dsimp only
    split
    next => exact h
    next p _ => exact inv_create h p
  | rotate serverID => exact inv_onRow h serverID fun p server hp => inv_rotate h hp server
  | rename serverID name =>
    refine inv_onRow h serverID fun p server _ => ?_
    split
    next => exact h
    next => exact inv_mutate h server rfl _
  | toggle serverID => exact inv_onRow h serverID fun p server _ => inv_mutate h server rfl _
  | remove serverID => exact inv_onRow h serverID fun p server _ => inv_mutate h server rfl _
  | saved =>
    unfold step
    dsimp only
    split
    next => exact h
    next =>
      split
      next hshown =>
        exact ⟨h.ledger.clear hshown, h.rotations.pages, h.rotations.mounted, h.rotations.rotating⟩
      next => exact h
  | answer page generation a => exact inv_answer h page generation a
  | created call server token =>
    unfold step
    dsimp only
    split
    next p hcall => exact inv_created h hcall server token
    next => exact h
  | rotated call server token =>
    unfold step
    dsimp only
    split
    next p g id name hcall => exact inv_rotated h hcall server token
    next => exact h
  | refused call error =>
    unfold step
    dsimp only
    split
    next target hcall => exact inv_refused h hcall error
    next => exact h

end Steps

/-- What is to be had of the tokens, at any moment. -/
structure Kept (s : Dashboard) : Prop where
  /-- A token that was answered is shown until it is saved or its server is deleted. -/
  kept : ∀ n call serverID token, s.tokenCalls n = some call →
    call.ending = .answered serverID token →
      s.Shows n serverID token ∨ n ∈ s.saved ∨ n ∈ s.dropped
  used : ∀ n call, s.tokenCalls n = some call → call.ending ≠ .superseded
  /-- No request is under way while a token is shown. -/
  exclusive : s.oneTimeToken.isSome = true →
    ∀ n call, s.tokenCalls n = some call → call.ending ≠ .pending
  single : ∀ n m call call', s.tokenCalls n = some call → s.tokenCalls m = some call' →
    call.ending = .pending → call'.ending = .pending → n = m
  /-- The lock is held exactly as long as there is something to lose. -/
  lock : s.tokenLockRef = true ↔ s.oneTimeToken.isSome = true ∨
    ∃ n call, s.tokenCalls n = some call ∧ call.ending = .pending

/-- **No token is lost**, whatever is clicked and in whatever order the answers come. A token that
was answered is shown until it is saved or its server is deleted, no answer comes too late to be
shown, and no second request for a token is sent while there is one to lose. -/
theorem token_kept (as : List Action) : (run step start as).Kept := by
  have h : (run step start as).Inv :=
    @run_invariant _ _ step Inv (fun _ a h => inv_step h a) _ inv_start as
  refine ⟨h.ledger.kept, h.ledger.used, fun hshown _ _ hcall => ?_, h.ledger.single, ?_⟩
  · exact h.ledger.none_pending (h.ledger.free hshown) hcall
  · rw [h.ledger.lock, tokenLocked, Bool.or_eq_true, or_comm]
    refine or_congr_right ⟨h.ledger.requested, ?_⟩
    rintro ⟨n, call, hcall, hend⟩
    exact (h.ledger.outstanding n call hcall hend).1

/-- A rotation is answered after the page was left, and the token is renamed with its server. -/
def rotatedAway : List Action :=
  [.opened, .answer 0 1 (.listed [⟨7, "web", true, "", "", ""⟩]), .rotate 7, .toggle 7, .left,
    .rotated 0 ⟨7, "web", true, "", "", ""⟩ "secret",
    .answer 1 1 (.listed [⟨7, "web", true, "", "", ""⟩]), .create, .rename 7 "www",
    .answer 1 2 (.updated ⟨7, "www", true, "", "", ""⟩)]

example : (run step start rotatedAway).oneTimeToken = some ⟨7, "www", "secret", .rotate 7⟩ ∧
    (run step start rotatedAway).mounted = some 1 := by decide +kernel

end Dashboard

end TinyProbe.Web
