import TinyProbe.Web.Backend

/-!
# What the collection has of its backend

When nothing is outstanding, the collection has the servers that the registry has (`converges`),
if a list was taken over, if of every server the request that took effect last was applied, and if
no server was added by an outdated record. The guards of the hook drop answers and do not ask
again, so without these it need not (`overtaken_diverges`).

Two invariants carry this. `Answers` says what the answers that are on their way tell of the
registry, and which of them can still be taken over. `Shown` says of every server whose last
request was applied that the collection has it as the registry has it; a server whose last request
is under way, or was dropped, is not spoken of.
-/

namespace TinyProbe.Web

open Servers TinyProbe.Run

/-! ## Records under their ids -/

/-- The server of an id in a list of records. -/
def serverOf? (records : List ServerRecord) (id : Int) : Option Server :=
  (records.find? fun record => record.id == id).map ServerRecord.server

section Records

variable {records : List ServerRecord} {record : ServerRecord} {id : Int}

theorem serverOf?_recordOf (stamp : Int → ServerRecord) (servers : List Server) (id : Int) :
    serverOf? (servers.map fun server => recordOf (stamp server.id) server) id =
      servers.find? fun server => server.id == id := by
  unfold serverOf?
  rw [List.find?_map, Option.map_map]
  exact congrFun Option.map_id _

theorem serverOf?_replaceServer (next : ServerRecord) :
    serverOf? (replaceServer records next) id =
      if id = next.id then (serverOf? records id).map fun _ => next.server
      else serverOf? records id := by
  have hkey : ∀ record : ServerRecord, (if record.id = next.id then next else record).id = record.id := by
    intro record
    split
    next heq => exact heq.symm
    next => rfl
  unfold serverOf? replaceServer
  rw [Table.find?_map (fun record : ServerRecord => record.id) hkey]
  cases hfind : records.find? fun record => record.id == id with
  | none => split <;> rfl
  | some record =>
    have hid : record.id = id := Table.key_of_find? (fun record : ServerRecord => record.id) hfind
    by_cases h : id = next.id
    · rw [if_pos h, Option.map_some, if_pos (hid.trans h)]
      rfl
    · rw [if_neg h, Option.map_some, if_neg fun heq => h (hid.symm.trans heq)]

theorem serverOf?_filter (id' : Int) :
    serverOf? (records.filter fun record => record.id != id') id =
      if id = id' then none else serverOf? records id := by
  unfold serverOf?
  rw [Table.find?_delete (fun record : ServerRecord => record.id) id']
  split <;> rfl

theorem serverOf?_add :
    serverOf? ((records.filter fun item => item.id != record.id) ++ [record]) id =
      if id = record.id then some record.server else serverOf? records id := by
  have hfresh : ∀ item ∈ records.filter (fun item => item.id != record.id), item.id ≠ record.id :=
    fun item hitem => bne_iff_ne.mp (List.mem_filter.mp hitem).2
  have hfind := @Table.find?_append ServerRecord Int _ (fun record => record.id) _ id record hfresh
  unfold serverOf?
  rw [hfind]
  by_cases h : id = record.id
  · rw [if_pos h.symm, if_pos h]
    rfl
  · rw [if_neg (Ne.symm h), if_neg h, Table.find?_delete (fun record : ServerRecord => record.id),
      if_neg h]

end Records

/-! ## One step of the collection -/

namespace Collection

section Steps

variable {s : Collection} {a : Action} {g h : Nat} {kind : Kind} {id : Int}
  {action : ServerPendingAction}

/-- A list request that is current was current, and nothing has disturbed it. -/
theorem Inv.current_back (hinv : s.Inv) (hg : g ≤ s.nextGeneration) (hc : (s.step a).Current g) :
    s.Current g ∧ ¬ s.Disturbs a := by
  obtain ⟨hunderWay, hlatest⟩ := hc
  have hback := underWay?_back hg hunderWay
  obtain ⟨hrevision, _, hdisturbs⟩ := hinv.marks a
  have heq : (s.step a).mutationRevision = s.mutationRevision :=
    le_antisymm (hinv.revision_le g _ hback) hrevision
  have hlist : (s.step a).latestListGeneration = s.latestListGeneration := by
    rcases step_cases s a with ⟨_, hstep⟩ | ⟨_, _, _, _, _, _, hstep⟩ | ⟨_, _, hstep⟩ |
      ⟨_, _, hstep | ⟨_, _, _, hs⟩⟩
    · have hnew : (s.step a).latestListGeneration = s.nextGeneration + 1 := by
        rw [hstep]
        rfl
      omega
    · rw [hstep]
      rfl
    · rw [hstep]
      rfl
    · rw [hstep]
    · exact hs.latestListGeneration
  refine ⟨⟨heq ▸ hback, hlist.symm.trans hlatest⟩, fun hd => ?_⟩
  have hlt := hdisturbs.mp hd
  omega

/-- A call that is applied was applied, or its completion applies it. -/
theorem applied_back (hcall : (s.step a).calls g = some ⟨kind, .applied true⟩) :
    s.calls g = some ⟨kind, .applied true⟩ ∨ Settles s (s.step a) g kind (.applied true) := by
  by_cases hbefore : s.calls g = some ⟨kind, .applied true⟩
  · exact Or.inl hbefore
  · refine Or.inr ?_
    rcases step_cases s a with ⟨_, hstep⟩ | ⟨_, _, _, _, _, _, hstep⟩ | ⟨_, _, hstep⟩ |
      ⟨_, _, hstep | ⟨g', kind', ending, hs⟩⟩
    · rw [hstep, calls_loadServers] at hcall
      split at hcall
      next => cases hcall
      next => exact absurd hcall hbefore
    · rw [hstep, calls_begin] at hcall
      split at hcall
      next => cases hcall
      next => exact absurd hcall hbefore
    · rw [hstep] at hcall
      exact absurd hcall hbefore
    · rw [hstep] at hcall
      exact absurd hcall hbefore
    · obtain ⟨rfl, hsettled⟩ := eq_of_settles hs hbefore hcall
      cases hsettled
      exact hs

/-- A mutation that is applied is the latest request for its server. -/
theorem latest_of_mutated {g' : Nat} {kind' : Kind} {id' : Int} {action' : ServerPendingAction}
    {change : List ServerRecord → List ServerRecord} (hunderWay : s.underWay? g' = some kind')
    (hkind' : kind'.request? = some (id', action')) (hbefore : s.calls g ≠ some ⟨kind, .applied true⟩)
    (hcall : (s.mutated id' g' kind' change).calls g = some ⟨kind, .applied true⟩) :
    g' = g ∧ kind' = kind ∧ AList.lookup id' s.latestServerGeneration = some g := by
  obtain ⟨rfl, heq⟩ := eq_of_settles (settles_mutated hunderWay hkind' change) hbefore hcall
  injection heq with hkinds hending
  exact ⟨rfl, hkinds.symm, beq_iff_eq.mp (Ending.applied.inj hending).symm⟩

/-- A call is applied by its own answer, and only if it is the latest request for its server. -/
theorem applied_cases (hs : Settles s (s.step a) g kind (.applied true)) :
    (∃ record, a = .updated g record) ∧ (∃ id action, kind = .update id action ∧
        AList.lookup id s.latestServerGeneration = some g) ∨
      a = .removed g ∧ ∃ id, kind = .remove id ∧
        AList.lookup id s.latestServerGeneration = some g := by
  have hcall := (calls_settles hs g).trans (if_pos rfl)
  have hbefore : s.calls g ≠ some ⟨kind, .applied true⟩ := by
    rw [calls_of_underWay? hs.underWay]
    exact fun h => by cases h
  have hfailed : ∀ {g' id' kind' error action'}, s.underWay? g' = some kind' →
      kind'.request? = some (id', action') →
        (s.mutationFailed id' g' kind' error).calls g ≠ some ⟨kind, .applied true⟩ := by
    intro g' id' kind' error action' hunderWay hkind' hcall
    obtain ⟨ending, hm, hended⟩ := settles_mutationFailed hunderWay hkind' error
    obtain ⟨_, heq⟩ := eq_of_settles hm hbefore hcall
    injection heq with _ hending
    exact hended hending.symm
  have hreturned : ∀ {t : Collection} {g' revisionAtStart}, t.calls = s.calls →
      (t.setCall g' ⟨.load revisionAtStart, .returned⟩).calls g ≠ some ⟨kind, .applied true⟩ := by
    intro t g' revisionAtStart hcalls
    rw [calls_setCall]
    split
    next => exact fun h => by cases h
    next =>
      rw [hcalls]
      exact hbefore
  cases a with
  | loadServers => exact absurd hs.nextGeneration (Nat.succ_ne_self _)
  | updateServer _ _ => exact absurd hs.nextGeneration (Nat.succ_ne_self _)
  | removeServer _ => exact absurd hs.nextGeneration (Nat.succ_ne_self _)
  | addServer _ => exact absurd hcall hbefore
  | listed g' result =>
    rw [step] at hcall
    split at hcall
    next =>
      refine absurd hcall (hreturned ?_)
      unfold listed
      split <;> rfl
    next => exact absurd hcall hbefore
  | updated g' record =>
    rw [step] at hcall
    split at hcall
    next hunderWay =>
      obtain ⟨rfl, hkind, hlatest⟩ := latest_of_mutated hunderWay rfl hbefore hcall
      exact Or.inl ⟨⟨record, rfl⟩, _, _, hkind.symm, hlatest⟩
    next => exact absurd hcall hbefore
  | removed g' =>
    rw [step] at hcall
    split at hcall
    next hunderWay =>
      obtain ⟨rfl, hkind, hlatest⟩ := latest_of_mutated hunderWay rfl hbefore hcall
      exact Or.inr ⟨rfl, _, hkind.symm, hlatest⟩
    next => exact absurd hcall hbefore
  | failed g' error =>
    rw [step] at hcall
    split at hcall
    next => exact absurd hcall hbefore
    next =>
      refine absurd hcall (hreturned ?_)
      unfold listFailed
      split <;> rfl
    next hunderWay => exact absurd hcall (hfailed hunderWay rfl)
    next hunderWay => exact absurd hcall (hfailed hunderWay rfl)

/-- The server of a call that is applied has it for its latest request. -/
theorem latest_of_applied (hs : Settles s (s.step a) g kind (.applied true))
    (hrequest : s.request? g = some (id, action)) :
    AList.lookup id s.latestServerGeneration = some g := by
  rw [request?_of_underWay? hs.underWay] at hrequest
  rcases applied_cases hs with ⟨_, id', action', hkind, hlatest⟩ | ⟨_, id', hkind, hlatest⟩
  · rw [hkind] at hrequest
    cases hrequest
    exact hlatest
  · rw [hkind] at hrequest
    cases hrequest
    exact hlatest

/-- A completion that applies a call disturbs every list request. -/
theorem disturbs_of_applied (hs : Settles s (s.step a) g kind (.applied true)) : s.Disturbs a := by
  have happlies : s.Applies a := ⟨g, kind, hs.underWay, (calls_settles hs g).trans (if_pos rfl)⟩
  rcases applied_cases hs with ⟨⟨record, rfl⟩, _⟩ | ⟨rfl, _⟩
  · exact happlies
  · exact happlies

/-- A call that is known goes on to be what it is. -/
theorem Inv.request?_step (hinv : s.Inv) {call : Call} (hcall : s.calls g = some call) (a : Action) :
    (s.step a).request? g = s.request? g := by
  obtain ⟨call', hcall', hkind⟩ := hinv.kind_step hcall a
  rw [request?, request?, hcall, hcall', Option.bind_some, Option.bind_some, hkind]

end Steps

end Collection

/-! ## What is on its way -/

/-- An update or a removal that has taken effect. -/
def BackendReply.Success : BackendReply → Prop
  | .updated _ => True
  | .removed => True
  | _ => False

namespace Client

/-- The server was created, and `addServer` is still to be called. -/
def Pending (s : Client) (id : Int) : Prop := ∃ record ∈ s.creations, record.id = id

/-- What the collection has of a server. -/
def shown? (s : Client) (id : Int) : Option Server := serverOf? s.hook.servers id

/-- What the answers that are on their way say of the registry, and which of them can still
matter. -/
structure Answers (s : Client) : Prop where
  hook : s.hook.Inv
  creations : ∀ record ∈ s.creations, record.id < s.registry.nextID
  known : ∀ g, s.replies g ≠ none → ∃ call, s.hook.calls g = some call
  last : ∀ id g, s.last id = some g → id < s.registry.nextID ∧ s.replies g ≠ none ∧
    ∃ action, s.hook.request? g = some (id, action)
  listed : ∀ g result, s.replies g = some (.listed result) →
    (result.map ServerRecord.id).Nodup ∧
      ∀ id, id ∉ s.since g → serverOf? result id = s.current? id
  updated : ∀ g record, s.replies g = some (.updated record) →
    (∃ call action, s.hook.calls g = some call ∧ call.kind = .update record.id action) ∧
      record.id < s.registry.nextID ∧
        (s.last record.id = some g → s.current? record.id = some record.server)
  removed : ∀ g, s.replies g = some .removed →
    ∃ call id, s.hook.calls g = some call ∧ call.kind = .remove id ∧
      id < s.registry.nextID ∧ s.current? id = none
  /-- The latest request for a server has not taken effect before one that was applied. -/
  after : ∀ id g g' reply, AList.lookup id s.hook.latestServerGeneration = some g' →
    s.hook.underWay? g' ≠ none → s.replies g' = some reply → reply.Success →
      s.last id = some g → g ≠ g' → ¬ s.Applied g
  touched : ∀ id g action reply, s.hook.request? g = some (id, action) →
    s.hook.underWay? g ≠ none → s.replies g = some reply → reply.Success → s.last id ≠ none
  /-- What a list that would be taken over does not say has not been applied, either. -/
  sinceLast : ∀ id g result, s.hook.Current g → s.replies g = some (.listed result) →
    id ∈ s.since g → ¬ s.Pending id → s.last id ≠ none
  sinceApplied : ∀ id g result g', s.hook.Current g → s.replies g = some (.listed result) →
    id ∈ s.since g → s.last id = some g' → ¬ s.Applied g'
  sincePresent : ∀ id g result, s.hook.Current g → s.replies g = some (.listed result) →
    s.current? id ≠ none → ¬ s.Pending id → serverOf? result id ≠ none

/-- What the collection has of the servers, once a list was taken over. -/
structure Shown (s : Client) : Prop where
  ids : (s.hook.servers.map ServerRecord.id).Nodup
  present : s.installed = true → ∀ id, s.current? id ≠ none → ¬ s.Pending id → s.shown? id ≠ none
  right : s.installed = true → ∀ id, ¬ s.Pending id → id ∉ s.outdated →
    (∀ g, s.last id = some g → s.Applied g) → s.shown? id = s.current? id

section Hooks

variable {s : Client} {a : Collection.Action} {g : Nat} {id : Int}

theorem Answers.le (h : s.Answers) (hg : s.replies g ≠ none) : g ≤ s.hook.nextGeneration := by
  obtain ⟨call, hcall⟩ := h.known g hg
  exact h.hook.known g call hcall

theorem ne_none_of_eq_some {A : Type} {x : Option A} {y : A} (h : x = some y) : x ≠ none := by
  rw [h]
  exact Option.some_ne_none y

/-- A request that is under way after a step was so before. -/
theorem Answers.underWay_back (h : s.Answers) (hg : s.replies g ≠ none)
    (hunderWay : (s.hook.step a).underWay? g ≠ none) : s.hook.underWay? g ≠ none := by
  obtain ⟨kind, hkind⟩ := Option.ne_none_iff_exists'.mp hunderWay
  exact ne_none_of_eq_some (Collection.underWay?_back (h.le hg) hkind)

theorem Answers.request?_step (h : s.Answers) (hg : s.replies g ≠ none) :
    (s.hook.step a).request? g = s.hook.request? g := by
  obtain ⟨call, hcall⟩ := h.known g hg
  exact h.hook.request?_step hcall a

/-- **A step of the collection** keeps what is on its way. -/
theorem Answers.hook_step (h : s.Answers) (a : Collection.Action) (changes : Nat → Option UpdateRequest) :
    Answers { s with hook := s.hook.step a, changes } where
  hook := h.hook.step a
  creations := h.creations
  known g hg := by
    obtain ⟨call, hcall⟩ := h.known g hg
    obtain ⟨call', hcall', _⟩ := h.hook.kind_step hcall a
    exact ⟨call', hcall'⟩
  last id g hlast := by
    obtain ⟨hid, hg, action, hrequest⟩ := h.last id g hlast
    exact ⟨hid, hg, action, (h.request?_step hg).trans hrequest⟩
  listed := h.listed
  updated g record hg := by
    obtain ⟨⟨call, action, hcall, hkind⟩, hid, hcurrent⟩ := h.updated g record hg
    obtain ⟨call', hcall', hkind'⟩ := h.hook.kind_step hcall a
    exact ⟨⟨call', action, hcall', hkind'.trans hkind⟩, hid, hcurrent⟩
  removed g hg := by
    obtain ⟨call, id, hcall, hkind, hid, hcurrent⟩ := h.removed g hg
    obtain ⟨call', hcall', hkind'⟩ := h.hook.kind_step hcall a
    exact ⟨call', id, hcall', hkind'.trans hkind, hid, hcurrent⟩
  after id g g' reply hlatest hunderWay hreply hsuccess hlast hne := by
    have hg' := ne_none_of_eq_some hreply
    have hlookup : AList.lookup id s.hook.latestServerGeneration = some g' := by
      rcases Collection.lookup_step s.hook id a with ⟨_, hnew⟩ | ⟨_, hsame⟩
      · have heq := Option.some.inj (hnew.symm.trans hlatest)
        have hle := h.le hg'
        omega
      · exact hsame.symm.trans hlatest
    have hold := h.after id g g' reply hlookup (h.underWay_back hg' hunderWay) hreply hsuccess hlast hne
    rintro ⟨kind, hcall⟩
    rcases Collection.applied_back hcall with hbefore | hs
    · exact hold ⟨kind, hbefore⟩
    · obtain ⟨_, _, action, hrequest⟩ := h.last id g hlast
      exact hne (Option.some.inj ((Collection.latest_of_applied hs hrequest).symm.trans hlookup))
  touched id g action reply hrequest hunderWay hreply hsuccess := by
    have hg := ne_none_of_eq_some hreply
    exact h.touched id g action reply ((h.request?_step hg).symm.trans hrequest)
      (h.underWay_back hg hunderWay) hreply hsuccess
  sinceLast id g result hcurrent hreply :=
    h.sinceLast id g result (h.hook.current_back (h.le (ne_none_of_eq_some hreply)) hcurrent).1 hreply
  sinceApplied id g result g' hcurrent hreply hsince hlast := by
    obtain ⟨hbefore, hquiet⟩ := h.hook.current_back (h.le (ne_none_of_eq_some hreply)) hcurrent
    rintro ⟨kind, hcall⟩
    rcases Collection.applied_back hcall with hold | hs
    · exact h.sinceApplied id g result g' hbefore hreply hsince hlast ⟨kind, hold⟩
    · exact hquiet (Collection.disturbs_of_applied hs)
  sincePresent id g result hcurrent hreply :=
    h.sincePresent id g result (h.hook.current_back (h.le (ne_none_of_eq_some hreply)) hcurrent).1 hreply

/-- A step that applies no call and leaves the servers alone keeps what the collection has. -/
theorem Shown.hook_step (h : s.Shown) (hservers : (s.hook.step a).servers = s.hook.servers)
    (hnone : ∀ g kind, ¬ Collection.Settles s.hook (s.hook.step a) g kind (.applied true))
    (changes : Nat → Option UpdateRequest) : Shown { s with hook := s.hook.step a, changes } where
  ids := by
    show ((s.hook.step a).servers.map ServerRecord.id).Nodup
    rw [hservers]
    exact h.ids
  present hinstalled id hcurrent hpending := by
    show serverOf? (s.hook.step a).servers id ≠ none
    rw [hservers]
    exact h.present hinstalled id hcurrent hpending
  right hinstalled id hpending houtdated happlied := by
    show serverOf? (s.hook.step a).servers id = s.current? id
    rw [hservers]
    refine h.right hinstalled id hpending houtdated fun g hlast => ?_
    obtain ⟨kind, hcall⟩ := happlied g hlast
    rcases Collection.applied_back hcall with hbefore | hs
    · exact ⟨kind, hbefore⟩
    · exact absurd hs (hnone g kind)

end Hooks

/-! ## Requests that take effect -/

/-- What an update or a removal that takes effect does to the registry: the server was there, and
of the others nothing changes. -/
structure Affects (r r' : Registry) (id : Int) : Prop where
  found : r.row? id ≠ none
  nextID : r'.nextID = r.nextID
  others : ∀ other, other ≠ id → (r'.row? other).map Row.toServer = (r.row? other).map Row.toServer

/-- The registry is what it was, as far as the servers go. -/
structure Same (r r' : Registry) : Prop where
  nextID : r'.nextID = r.nextID
  servers : ∀ id, (r'.row? id).map Row.toServer = (r.row? id).map Row.toServer

section Statements

variable {r r' : Registry} {id : Int} {server : Server}

theorem same_refl : Same r r := ⟨rfl, fun _ => rfl⟩

theorem update_ok {name : Option String} {enabled : Option Bool}
    (h : Service.update r id name enabled .ok = (.ok server, r')) :
    Affects r r' id ∧ (r'.row? id).map Row.toServer = some server := by
  unfold Service.update at h
  dsimp only at h
  split at h
  next => cases h
  next row hrow =>
    cases h
    refine ⟨⟨fun hnone => ?_, rfl, fun other hne => ?_⟩, congrArg (Option.map Row.toServer) hrow⟩
    · rw [Registry.row?_update, hnone] at hrow
      cases hrow
    · rw [Registry.row?_update]
      cases hother : r.row? other with
      | none => rfl
      | some row =>
        have hid := Registry.row?_id hother
        rw [Option.map_some, if_neg fun heq => hne (hid.symm.trans heq)]

theorem update_error {name : Option String} {enabled : Option Bool} {err : ServiceError}
    (h : Service.update r id name enabled .ok = (.error err, r')) : Same r r' := by
  unfold Service.update at h
  dsimp only at h
  split at h
  next => cases h; exact same_refl
  next => cases h

theorem perform_ok {change : UpdateRequest} (h : perform r id change = (.ok server, r')) :
    Affects r r' id ∧ (r'.row? id).map Row.toServer = some server := by
  cases change with
  | set name enabled =>
    unfold perform at h
    dsimp only at h
    split at h
    next => cases h
    next => exact update_ok h
  | rotate =>
    unfold perform Service.rotateTokenWithServer at h
    dsimp only at h
    cases hrow : r.row? id with
    | none => rw [hrow] at h; cases h
    | some row =>
      rw [hrow] at h
      cases h
      have hserver : ∀ other, ((r.setToken id).row? other).map Row.toServer =
          (r.row? other).map Row.toServer := by
        intro other
        rw [Registry.row?_setToken]
        cases r.row? other with
        | none => rfl
        | some row =>
          rw [Option.map_some, Option.map_some, Option.map_some]
          split <;> rfl
      refine ⟨⟨fun hnone => ?_, rfl, fun other _ => hserver other⟩, ?_⟩
      · rw [hrow] at hnone
        cases hnone
      · rw [hserver, hrow]
        rfl

theorem perform_error {change : UpdateRequest} {err : ServiceError}
    (h : perform r id change = (.error err, r')) : Same r r' := by
  cases change with
  | set name enabled =>
    unfold perform at h
    dsimp only at h
    split at h
    next => cases h; exact same_refl
    next => exact update_error h
  | rotate =>
    unfold perform Service.rotateTokenWithServer at h
    dsimp only at h
    cases hrow : r.row? id with
    | none => rw [hrow] at h; cases h; exact ⟨rfl, fun _ => rfl⟩
    | some row => rw [hrow] at h; cases h

theorem delete_ok {u : Unit} (h : Service.delete r id .ok = (.ok u, r')) :
    Affects r r' id ∧ (r'.row? id).map Row.toServer = none := by
  unfold Service.delete at h
  dsimp only at h
  split at h
  next => cases h
  next row hrow =>
    cases h
    refine ⟨⟨fun hnone => ?_, rfl, fun other hne => ?_⟩, ?_⟩
    · rw [hrow] at hnone
      cases hnone
    · rw [Registry.row?_delete, if_neg hne]
    · rw [Registry.row?_delete, if_pos rfl]
      rfl

theorem delete_error {err : ServiceError} (h : Service.delete r id .ok = (.error err, r')) :
    Same r r' := by
  unfold Service.delete at h
  dsimp only at h
  split at h
  next => cases h; exact same_refl
  next => cases h

theorem find?_servers (r : Registry) (id : Int) :
    (r.servers.find? fun server => server.id == id) = (r.row? id).map Row.toServer := by
  unfold Registry.servers Registry.row?
  exact List.find?_map

end Statements

section Serving

variable {s : Client} {g : Nat} {id : Int} {registry : Registry} {reply : BackendReply}
  {kind : Collection.Kind} {action : ServerPendingAction}

theorem replies_answer (other : Nat) :
    (s.answer g reply).replies other = if other = g then some reply else s.replies other :=
  Function.update_apply s.replies g (some reply) other

/-- A reply other than the new one was there before. -/
theorem replies_back {old : BackendReply} {other : Nat}
    (h : (s.answer g reply).replies other = some old) (hne : old ≠ reply) :
    s.replies other = some old ∧ other ≠ g := by
  rw [replies_answer] at h
  split at h
  next =>
    cases h
    exact absurd rfl hne
  next hother => exact ⟨h, hother⟩

theorem replies_ne {other : Nat} (h : s.replies other ≠ none) :
    (s.answer g reply).replies other ≠ none := by
  rw [replies_answer]
  split
  next => exact Option.some_ne_none reply
  next => exact h

theorem Answers.known_answer (h : s.Answers) (hunderWay : s.hook.underWay? g = some kind)
    {other : Nat} (hother : (s.answer g reply).replies other ≠ none) :
    ∃ call, s.hook.calls other = some call := by
  rw [replies_answer] at hother
  split at hother
  next heq => exact heq ▸ ⟨_, Collection.calls_of_underWay? hunderWay⟩
  next => exact h.known other hother

/-- The registry is left as it was. -/
theorem Answers.same (h : s.Answers) (hsame : Same s.registry registry) :
    Answers { s with registry } where
  hook := h.hook
  creations record hrecord := by
    show record.id < registry.nextID
    rw [hsame.nextID]
    exact h.creations record hrecord
  known := h.known
  last id g hlast := by
    show id < registry.nextID ∧ _
    rw [hsame.nextID]
    exact h.last id g hlast
  listed g result hreply := by
    obtain ⟨hnodup, hservers⟩ := h.listed g result hreply
    exact ⟨hnodup, fun id hid => (hservers id hid).trans (hsame.servers id).symm⟩
  updated g record hreply := by
    obtain ⟨hcall, hid, hcurrent⟩ := h.updated g record hreply
    refine ⟨hcall, ?_, fun hlast => (hsame.servers _).trans (hcurrent hlast)⟩
    show record.id < registry.nextID
    rw [hsame.nextID]
    exact hid
  removed g hreply := by
    obtain ⟨call, id, hcall, hkind, hid, hcurrent⟩ := h.removed g hreply
    refine ⟨call, id, hcall, hkind, ?_, (hsame.servers id).trans hcurrent⟩
    show id < registry.nextID
    rw [hsame.nextID]
    exact hid
  after := h.after
  touched := h.touched
  sinceLast := h.sinceLast
  sinceApplied := h.sinceApplied
  sincePresent id g result hcurrent hreply hid :=
    h.sincePresent id g result hcurrent hreply fun hnone => hid ((hsame.servers id).trans hnone)

/-- A request fails, and has no effect. -/
theorem Answers.fail (h : s.Answers) (hunderWay : s.hook.underWay? g = some kind) (error : String) :
    Answers (s.answer g (.failed error)) where
  hook := h.hook
  creations := h.creations
  known other hother := h.known_answer hunderWay hother
  last id g' hlast := by
    obtain ⟨hid, hg', hrequest⟩ := h.last id g' hlast
    exact ⟨hid, replies_ne hg', hrequest⟩
  listed other result hother := h.listed other result (replies_back hother fun heq => by cases heq).1
  updated other record hother :=
    h.updated other record (replies_back hother fun heq => by cases heq).1
  removed other hother := h.removed other (replies_back hother fun heq => by cases heq).1
  after id g' other reply hlatest hother hreply hsuccess := by
    obtain ⟨hold, _⟩ := replies_back hreply fun heq => by rw [heq] at hsuccess; exact hsuccess
    exact h.after id g' other reply hlatest hother hold hsuccess
  touched id other action reply hrequest hother hreply hsuccess := by
    obtain ⟨hold, _⟩ := replies_back hreply fun heq => by rw [heq] at hsuccess; exact hsuccess
    exact h.touched id other action reply hrequest hother hold hsuccess
  sinceLast id other result hcurrent hreply :=
    h.sinceLast id other result hcurrent (replies_back hreply fun heq => by cases heq).1
  sinceApplied id other result g' hcurrent hreply :=
    h.sinceApplied id other result g' hcurrent (replies_back hreply fun heq => by cases heq).1
  sincePresent id other result hcurrent hreply :=
    h.sincePresent id other result hcurrent (replies_back hreply fun heq => by cases heq).1

/-- A list is read, and says of every server what the registry says. -/
theorem Answers.readList (h : s.Answers) (hunderWay : s.hook.underWay? g = some kind)
    (stamp : Int → ServerRecord) : Answers (s.readList g stamp) := by
  have hservers : ∀ id, serverOf? ((Service.list s.registry).map fun server =>
      recordOf (stamp server.id) server) id = s.current? id := fun id =>
    (serverOf?_recordOf stamp _ id).trans (find?_servers s.registry id)
  have hsince : ∀ other, (s.readList g stamp).since other = if other = g then [] else s.since other :=
    fun other => Function.update_apply s.since g [] other
  have hback : ∀ {other result}, (s.readList g stamp).replies other = some (.listed result) →
      other ≠ g → s.replies other = some (.listed result) := fun {other result} hother hne =>
    ((replies_answer other).trans (if_neg hne)).symm.trans hother
  exact
    { hook := h.hook
      creations := h.creations
      known := fun other hother => h.known_answer hunderWay hother
      last := fun id g' hlast => by
        obtain ⟨hid, hg', hrequest⟩ := h.last id g' hlast
        exact ⟨hid, replies_ne hg', hrequest⟩
      listed := fun other result hother => by
        rw [hsince]
        by_cases heq : other = g
        · have hresult := ((replies_answer other).trans (if_pos heq)).symm.trans hother
          cases hresult
          refine ⟨?_, fun id _ => hservers id⟩
          rw [List.map_map]
          exact Registry.nodup_servers s.registry
        · rw [if_neg heq]
          exact h.listed other result (hback hother heq)
      updated := fun other record hother =>
        h.updated other record (replies_back hother fun heq => by cases heq).1
      removed := fun other hother => h.removed other (replies_back hother fun heq => by cases heq).1
      after := fun id g' other reply hlatest hother hreply hsuccess => by
        obtain ⟨hold, _⟩ := replies_back hreply fun heq => by rw [heq] at hsuccess; exact hsuccess
        exact h.after id g' other reply hlatest hother hold hsuccess
      touched := fun id other action reply hrequest hother hreply hsuccess => by
        obtain ⟨hold, _⟩ := replies_back hreply fun heq => by rw [heq] at hsuccess; exact hsuccess
        exact h.touched id other action reply hrequest hother hold hsuccess
      sinceLast := fun id other result hcurrent hreply hid => by
        rw [hsince] at hid
        split at hid
        next => cases hid
        next hne => exact h.sinceLast id other result hcurrent (hback hreply hne) hid
      sinceApplied := fun id other result g' hcurrent hreply hid => by
        rw [hsince] at hid
        split at hid
        next => cases hid
        next hne => exact h.sinceApplied id other result g' hcurrent (hback hreply hne) hid
      sincePresent := fun id other result hcurrent hreply hid hpending => by
        by_cases heq : other = g
        · have hresult := ((replies_answer other).trans (if_pos heq)).symm.trans hreply
          cases hresult
          rw [hservers]
          exact hid
        · exact h.sincePresent id other result hcurrent (hback hreply heq) hid hpending }

/-- What is known of a request that takes effect. -/
structure Effect (s : Client) (g : Nat) (id : Int) (registry : Registry) (reply : BackendReply) : Prop where
  success : reply.Success
  request : ∃ action, s.hook.request? g = some (id, action)
  affects : Affects s.registry registry id
  updated : ∀ record, reply = .updated record → record.id = id ∧
    (∃ call action, s.hook.calls g = some call ∧ call.kind = .update id action) ∧
      (registry.row? id).map Row.toServer = some record.server
  removed : reply = .removed → (registry.row? id).map Row.toServer = none ∧
    ∃ call, s.hook.calls g = some call ∧ call.kind = .remove id

private theorem affect_last (other : Int) : (s.affect g id registry reply).last other =
    if other = id then some g else s.last other :=
  Function.update_apply s.last id (some g) other

/-- Of an earlier answer nothing changes. -/
private theorem affect_replies {other : Nat} (hne : other ≠ g) :
    (s.affect g id registry reply).replies other = s.replies other :=
  (replies_answer other).trans (if_neg hne)

private theorem affect_reply {reply' : BackendReply}
    (hreply : (s.affect g id registry reply).replies g = some reply') : reply = reply' :=
  Option.some.inj (((replies_answer g).trans (if_pos rfl)).symm.trans hreply)

/-- A request under way has not been applied. -/
private theorem not_applied_of_underWay (hunderWay : s.hook.underWay? g = some kind) :
    ¬ s.Applied g := by
  rintro ⟨kind', hcall⟩
  rw [Collection.calls_of_underWay? hunderWay] at hcall
  cases hcall

/-- Of another server, the last request is the one it was; this one has not been applied. -/
private theorem affect_not_applied {server : Int} (hunderWay : s.hook.underWay? g = some kind)
    {g' : Nat} (hlast : (s.affect g id registry reply).last server = some g')
    (hold : server ≠ id → s.last server = some g' → ¬ s.Applied g') : ¬ s.Applied g' := by
  rw [affect_last] at hlast
  split at hlast
  next =>
    cases hlast
    exact not_applied_of_underWay hunderWay
  next hne => exact hold hne hlast

namespace Effect

variable (he : Effect s g id registry reply)

include he

theorem found : s.current? id ≠ none := fun heq => he.affects.found (Option.map_eq_none_iff.mp heq)

theorem known_id : id < s.registry.nextID := by
  obtain ⟨row, hrow⟩ := Option.ne_none_iff_exists'.mp he.affects.found
  exact Registry.lt_nextID hrow

/-- A list on its way was read before. -/
theorem list_back {other : Nat} {result : List ServerRecord}
    (h : (s.affect g id registry reply).replies other = some (.listed result)) :
    s.replies other = some (.listed result) :=
  (replies_back h fun heq => by
    have hsuccess := he.success
    rw [← heq] at hsuccess
    exact hsuccess).1

/-- The request is for this server only. -/
theorem only {other : Int} {action : ServerPendingAction}
    (hrequest : s.hook.request? g = some (other, action)) : other = id := by
  obtain ⟨action', hrequest'⟩ := he.request
  rw [hrequest'] at hrequest
  cases hrequest
  rfl

theorem last (h : s.Answers) {other : Int} {g' : Nat}
    (hlast : (s.affect g id registry reply).last other = some g') :
    other < s.registry.nextID ∧ (s.affect g id registry reply).replies g' ≠ none ∧
      ∃ action, s.hook.request? g' = some (other, action) := by
  rw [affect_last] at hlast
  split at hlast
  next heq =>
    cases hlast
    refine ⟨heq ▸ he.known_id, ?_, heq ▸ he.request⟩
    exact ne_none_of_eq_some ((replies_answer g).trans (if_pos rfl))
  next =>
    obtain ⟨hother, hreplies, hrequest⟩ := h.last other g' hlast
    exact ⟨hother, replies_ne hreplies, hrequest⟩

/-- A list that was read says of the other servers what it said. -/
theorem listed (h : s.Answers) {other : Nat} {result : List ServerRecord}
    (hreply : (s.affect g id registry reply).replies other = some (.listed result)) :
    (result.map ServerRecord.id).Nodup ∧
      ∀ server, server ∉ (s.affect g id registry reply).since other →
        serverOf? result server = (s.affect g id registry reply).current? server := by
  obtain ⟨hnodup, hservers⟩ := h.listed other result (he.list_back hreply)
  refine ⟨hnodup, fun server hmem => ?_⟩
  have hne : server ≠ id := fun heq => hmem (heq ▸ List.mem_cons_self)
  have hsince : server ∉ s.since other := fun h => hmem (List.mem_cons_of_mem _ h)
  exact (hservers server hsince).trans (he.affects.others server hne).symm

/-- The update's own answer is what the registry has; an earlier one is the last of its server only
where this request is not. -/
theorem answered (h : s.Answers) {other : Nat} {record : ServerRecord}
    (hreply : (s.affect g id registry reply).replies other = some (.updated record)) :
    (∃ call action, s.hook.calls other = some call ∧ call.kind = .update record.id action) ∧
      record.id < s.registry.nextID ∧
        ((s.affect g id registry reply).last record.id = some other →
          (s.affect g id registry reply).current? record.id = some record.server) := by
  by_cases heq : other = g
  · subst heq
    obtain ⟨rfl, hcall, hcurrent⟩ := he.updated record (affect_reply hreply)
    exact ⟨hcall, he.known_id, fun _ => hcurrent⟩
  · rw [affect_replies heq] at hreply
    obtain ⟨hcall, hrecordid, hcurrent⟩ := h.updated other record hreply
    refine ⟨hcall, hrecordid, fun hlast => ?_⟩
    rw [affect_last] at hlast
    split at hlast
    next =>
      cases hlast
      exact absurd rfl heq
    next hne => exact (he.affects.others _ hne).trans (hcurrent hlast)

theorem gone (h : s.Answers) {other : Nat}
    (hreply : (s.affect g id registry reply).replies other = some .removed) :
    ∃ call server, s.hook.calls other = some call ∧ call.kind = .remove server ∧
      server < s.registry.nextID ∧ (s.affect g id registry reply).current? server = none := by
  by_cases heq : other = g
  · subst heq
    obtain ⟨hcurrent, call, hcall, hkind⟩ := he.removed (affect_reply hreply)
    exact ⟨call, id, hcall, hkind, he.known_id, hcurrent⟩
  · rw [affect_replies heq] at hreply
    obtain ⟨call, server, hcall, hkind, hserverid, hcurrent⟩ := h.removed other hreply
    have hne : server ≠ id := fun heq => he.found (heq ▸ hcurrent)
    exact ⟨call, server, hcall, hkind, hserverid, (he.affects.others server hne).trans hcurrent⟩

theorem after (h : s.Answers) (hunderWay : s.hook.underWay? g = some kind) {server : Int}
    {g' other : Nat} {reply' : BackendReply}
    (hlatest : AList.lookup server s.hook.latestServerGeneration = some other)
    (hother : s.hook.underWay? other ≠ none)
    (hreply : (s.affect g id registry reply).replies other = some reply')
    (hsuccess : reply'.Success) (hlast : (s.affect g id registry reply).last server = some g')
    (hne : g' ≠ other) : ¬ s.Applied g' := by
  refine affect_not_applied hunderWay hlast fun hserver hlast => ?_
  by_cases heq : other = g
  · obtain ⟨action, hrequest⟩ := (h.hook.latest server other).mp hlatest
    rw [heq] at hrequest
    exact absurd (he.only hrequest.begun) hserver
  · rw [affect_replies heq] at hreply
    exact h.after server g' other reply' hlatest hother hreply hsuccess hlast hne

theorem touched (h : s.Answers) {server : Int} {other : Nat} {action : ServerPendingAction}
    {reply' : BackendReply} (hrequest : s.hook.request? other = some (server, action))
    (hother : s.hook.underWay? other ≠ none)
    (hreply : (s.affect g id registry reply).replies other = some reply')
    (hsuccess : reply'.Success) : (s.affect g id registry reply).last server ≠ none := by
  rw [affect_last]
  split
  next => exact Option.some_ne_none g
  next hserver =>
    by_cases heq : other = g
    · rw [heq] at hrequest
      exact absurd (he.only hrequest) hserver
    · rw [affect_replies heq] at hreply
      exact h.touched server other action reply' hrequest hother hreply hsuccess

end Effect

/-- **An update or a removal takes effect.** -/
theorem Answers.affect (h : s.Answers) (hunderWay : s.hook.underWay? g = some kind)
    (he : Effect s g id registry reply) : Answers (s.affect g id registry reply) where
  hook := h.hook
  creations record hrecord := by
    show record.id < registry.nextID
    rw [he.affects.nextID]
    exact h.creations record hrecord
  known other hother := h.known_answer hunderWay hother
  last other g' hlast := by
    show other < registry.nextID ∧ _
    rw [he.affects.nextID]
    exact he.last h hlast
  listed other result hreply := he.listed h hreply
  updated other record hreply := by
    show _ ∧ record.id < registry.nextID ∧ _
    rw [he.affects.nextID]
    exact he.answered h hreply
  removed other hreply := by
    show ∃ call server, _ ∧ _ ∧ server < registry.nextID ∧ _
    rw [he.affects.nextID]
    exact he.gone h hreply
  after server g' other reply' hlatest hother hreply hsuccess hlast hne :=
    he.after h hunderWay hlatest hother hreply hsuccess hlast hne
  touched server other action reply' hrequest hother hreply hsuccess :=
    he.touched h hrequest hother hreply hsuccess
  sinceLast server other result hcurrent hreply hsince hpending := by
    rw [affect_last]
    split
    next => exact Option.some_ne_none g
    next hne =>
      refine h.sinceLast server other result hcurrent (he.list_back hreply) ?_ hpending
      exact (List.mem_cons.mp hsince).resolve_left hne
  sinceApplied server other result g' hcurrent hreply hsince hlast := by
    refine affect_not_applied hunderWay hlast fun hne hlast => ?_
    refine h.sinceApplied server other result g' hcurrent (he.list_back hreply) ?_ hlast
    exact (List.mem_cons.mp hsince).resolve_left hne
  sincePresent server other result hcurrent hreply hfound hpending := by
    refine h.sincePresent server other result hcurrent (he.list_back hreply) ?_ hpending
    by_cases heq : server = id
    · exact heq ▸ he.found
    · exact fun hnone => hfound ((he.affects.others server heq).trans hnone)

/-- A request is answered. -/
theorem Answers.serve (h : s.Answers) (hunderWay : s.hook.underWay? g = some kind) (error : String)
    (stamp : Int → ServerRecord) : Answers (s.serve g kind error stamp) := by
  have hcalls := Collection.calls_of_underWay? hunderWay
  have hrequest := Collection.request?_of_underWay? hunderWay
  cases kind with
  | load revisionAtStart => exact h.readList hunderWay stamp
  | update serverID action =>
    unfold Client.serve
    dsimp only
    split
    next => exact h
    next =>
      split
      next server registry hperform =>
        obtain ⟨haffects, hserver⟩ := perform_ok hperform
        obtain ⟨row, hrow, rfl⟩ := Option.map_eq_some_iff.mp hserver
        refine h.affect hunderWay
          { success := trivial
            request := ⟨action, hrequest⟩
            affects := haffects
            updated := ?_
            removed := fun heq => by cases heq }
        rintro _ ⟨⟩
        exact ⟨Registry.row?_id hrow, ⟨_, action, hcalls, rfl⟩, hserver⟩
      next registry hperform =>
        exact (h.same (perform_error hperform)).fail hunderWay error
  | remove serverID =>
    unfold Client.serve
    dsimp only
    split
    next registry hdelete =>
      obtain ⟨haffects, hnone⟩ := delete_ok hdelete
      exact h.affect hunderWay
        { success := trivial
          request := ⟨.delete, hrequest⟩
          affects := haffects
          updated := fun record heq => by cases heq
          removed := fun _ => ⟨hnone, _, hcalls, rfl⟩ }
    next registry hdelete =>
      exact (h.same (delete_error hdelete)).fail hunderWay error

end Serving

/-! ## Servers that are created -/

section Creating

variable {s : Client} {id : Int}

/-- What a creation does to the registry: the server has an id that no server ever had, and of the
others nothing changes. -/
structure Creates (r r' : Registry) (server : Server) : Prop where
  id : server.id = r.nextID
  nextID : r'.nextID = r.nextID + 1
  others : ∀ other, other ≠ r.nextID → (r'.row? other).map Row.toServer = (r.row? other).map Row.toServer

theorem create_ok {r r' : Registry} {name : String} {answer : Server × Token}
    (h : Service.create r name .ok = (.ok answer, r')) : Creates r r' answer.1 := by
  unfold Service.create at h
  dsimp only at h
  split at h
  next => cases h
  next =>
    split at h
    next => cases h
    next =>
      cases h
      refine ⟨rfl, rfl, fun other hne => ?_⟩
      rw [Registry.row?_insert, if_neg (Ne.symm hne)]

theorem create_error {r r' : Registry} {name : String} {err : ServiceError}
    (h : Service.create r name .ok = (.error err, r')) : Same r r' := by
  unfold Service.create at h
  dsimp only at h
  split at h
  next => cases h; exact same_refl
  next =>
    split at h
    next => cases h; exact ⟨rfl, fun _ => rfl⟩
    next => cases h

/-- The servers that are pending after a creation. -/
theorem pending_snoc {record : ServerRecord} :
    (∃ other ∈ s.creations ++ [record], other.id = id) ↔ s.Pending id ∨ id = record.id := by
  constructor
  · rintro ⟨other, hother, rfl⟩
    rcases List.mem_append.mp hother with hold | hnew
    · exact Or.inl ⟨other, hold, rfl⟩
    · exact Or.inr (congrArg _ (List.mem_singleton.mp hnew))
  · rintro (⟨other, hold, hid⟩ | rfl)
    · exact ⟨other, List.mem_append_left _ hold, hid⟩
    · exact ⟨record, List.mem_append_right _ (List.mem_singleton_self _), rfl⟩

/-- The servers that are pending after `addServer`. -/
theorem pending_filter {record : ServerRecord} :
    (∃ other ∈ s.creations.filter fun other => other.id != record.id, other.id = id) ↔
      s.Pending id ∧ id ≠ record.id := by
  constructor
  · rintro ⟨other, hother, rfl⟩
    obtain ⟨hold, hne⟩ := List.mem_filter.mp hother
    exact ⟨⟨other, hold, rfl⟩, bne_iff_ne.mp hne⟩
  · rintro ⟨⟨other, hold, rfl⟩, hne⟩
    exact ⟨other, List.mem_filter.mpr ⟨hold, bne_iff_ne.mpr hne⟩, rfl⟩

/-- **A server is created.** What is on its way says nothing of it. -/
theorem Answers.create (h : s.Answers) (name : String) (stamp : ServerRecord) :
    Answers (s.create name stamp) := by
  unfold Client.create
  split
  next server token registry hcreate =>
    have hc : Creates s.registry registry server := create_ok hcreate
    have hnext : registry.nextID = s.registry.nextID + 1 := hc.nextID
    have hlt : ∀ {id}, id < s.registry.nextID → id < registry.nextID := fun hid => by omega
    -- the servers that were there are what they were
    have hold : ∀ {id}, id < s.registry.nextID →
        (registry.row? id).map Row.toServer = s.current? id := fun hid =>
      hc.others _ (Int.ne_of_lt hid)
    have hne : ∀ {id}, id ≠ server.id →
        (registry.row? id).map Row.toServer = s.current? id := fun hid =>
      hc.others _ fun heq => hid (heq.trans hc.id.symm)
    exact
      { hook := h.hook
        creations := fun record hrecord => by
          rcases List.mem_append.mp hrecord with hbefore | hnew
          · exact hlt (h.creations record hbefore)
          · rw [List.mem_singleton.mp hnew]
            show server.id < registry.nextID
            rw [hc.id]
            omega
        known := h.known
        last := fun id g hlast => by
          obtain ⟨hid, hrest⟩ := h.last id g hlast
          exact ⟨hlt hid, hrest⟩
        listed := fun g result hreply => by
          obtain ⟨hnodup, hservers⟩ := h.listed g result hreply
          refine ⟨hnodup, fun id hid => ?_⟩
          have hother : id ≠ server.id := fun heq => hid (heq ▸ List.mem_cons_self)
          have hsince : id ∉ s.since g := fun h => hid (List.mem_cons_of_mem _ h)
          exact (hservers id hsince).trans (hne hother).symm
        updated := fun g record hreply => by
          obtain ⟨hcall, hid, hcurrent⟩ := h.updated g record hreply
          exact ⟨hcall, hlt hid, fun hlast => (hold hid).trans (hcurrent hlast)⟩
        removed := fun g hreply => by
          obtain ⟨call, id, hcall, hkind, hid, hcurrent⟩ := h.removed g hreply
          exact ⟨call, id, hcall, hkind, hlt hid, (hold hid).trans hcurrent⟩
        after := h.after
        touched := h.touched
        sinceLast := fun id g result hcurrent hreply hsince hpending => by
          rcases List.mem_cons.mp hsince with heq | hsince
          · exact absurd (pending_snoc.mpr (Or.inr heq)) hpending
          · exact h.sinceLast id g result hcurrent hreply hsince fun hp =>
              hpending (pending_snoc.mpr (Or.inl hp))
        sinceApplied := fun id g result g' hcurrent hreply hsince hlast => by
          rcases List.mem_cons.mp hsince with heq | hsince
          · have hid := (h.last id g' hlast).1
            rw [heq, hc.id] at hid
            exact absurd hid (Int.lt_irrefl _)
          · exact h.sinceApplied id g result g' hcurrent hreply hsince hlast
        sincePresent := fun id g result hcurrent hreply hid hpending => by
          have hother : id ≠ server.id := fun heq => hpending (pending_snoc.mpr (Or.inr heq))
          exact h.sincePresent id g result hcurrent hreply (fun hnone => hid ((hne hother).trans hnone))
            fun hp => hpending (pending_snoc.mpr (Or.inl hp)) }
  next err registry hcreate => exact h.same (create_error hcreate)

/-- **A server that was created is added**, and no list that is on its way will be taken over. -/
theorem Answers.add (h : s.Answers) (record : ServerRecord) : Answers (s.add record) := by
  have hstep := h.hook_step (.addServer record) s.changes
  have hdropped : ∀ {g result}, s.replies g = some (.listed result) →
      ¬ (s.hook.step (.addServer record)).Current g := fun hreply hcurrent =>
    (h.hook.current_back (h.le (ne_none_of_eq_some hreply)) hcurrent).2 trivial
  exact
    { hook := hstep.hook
      creations := fun other hother => h.creations other (List.mem_filter.mp hother).1
      known := hstep.known
      last := hstep.last
      listed := hstep.listed
      updated := hstep.updated
      removed := hstep.removed
      after := hstep.after
      touched := hstep.touched
      sinceLast := fun _ _ _ hcurrent hreply => absurd hcurrent (hdropped hreply)
      sinceApplied := fun _ _ _ _ hcurrent hreply => absurd hcurrent (hdropped hreply)
      sincePresent := fun _ _ _ hcurrent hreply => absurd hcurrent (hdropped hreply) }

end Creating

/-! ## Answers that arrive -/

section Delivering

variable {s : Client} {g : Nat} {id : Int} {result : List ServerRecord} {kind : Collection.Kind}

theorem underWay?_listed (h : s.hook.Current g) :
    (s.hook.step (.listed g result)).underWay? g = none := by
  rw [Collection.step, h.1]
  unfold Collection.underWay?
  dsimp only
  rw [Collection.calls_setCall, if_pos rfl]

/-- An answer of a list applies no call. -/
theorem not_applied_listed (kind : Collection.Kind) (other : Nat) :
    ¬ Collection.Settles s.hook (s.hook.step (.listed g result)) other kind (.applied true) := by
  intro hs
  rcases Collection.applied_cases hs with ⟨⟨_, heq⟩, _⟩ | ⟨heq, _⟩
  · cases heq
  · cases heq

/-- What is on record of a server is kept, or dropped. -/
theorem last_deliverList {other : Nat} (h : (s.deliverList g result).last id = some other) :
    s.last id = some other := by
  unfold Client.deliverList at h
  split at h
  next =>
    dsimp only at h
    split at h
    next =>
      dsimp only at h
      split at h
      next => exact h
      next => cases h
    next => exact h
  next => exact h

/-- **The answer of a list arrives.** If it is taken over, no other list will be. -/
theorem Answers.deliverList (h : s.Answers) : Answers (s.deliverList g result) := by
  have hstep := h.hook_step (.listed g result) s.changes
  have hlast := fun {id other} => @last_deliverList s g id result other
  unfold Client.deliverList at hlast ⊢
  dsimp only at hlast ⊢
  by_cases hcurrent : s.hook.Current g
  · rw [if_pos hcurrent] at hlast ⊢
    have hdropped : ∀ {other list}, s.replies other = some (.listed list) →
        ¬ (s.hook.step (.listed g result)).Current other := by
      intro other list hreply hother
      have hbefore := (h.hook.current_back (h.le (ne_none_of_eq_some hreply)) hother).1
      have heq : other = g := hbefore.2.symm.trans hcurrent.2
      have hended : (s.hook.step (.listed g result)).underWay? g = none := underWay?_listed hcurrent
      rw [heq] at hother
      exact absurd (hended.symm.trans hother.1) fun h => by cases h
    exact
      { hook := hstep.hook
        creations := hstep.creations
        known := hstep.known
        last := fun id other hother => hstep.last id other (hlast hother)
        listed := hstep.listed
        updated := fun other record hreply => by
          obtain ⟨hcall, hid, hold⟩ := hstep.updated other record hreply
          exact ⟨hcall, hid, fun hother => hold (hlast hother)⟩
        removed := hstep.removed
        after := fun id g g' reply hlatest hunderWay hreply hsuccess hother =>
          hstep.after id g g' reply hlatest hunderWay hreply hsuccess (hlast hother)
        touched := fun id other action reply hrequest hunderWay hreply hsuccess => by
          have htouched := hstep.touched id other action reply hrequest hunderWay hreply hsuccess
          dsimp only
          split
          next hquiet =>
            have hother := ne_none_of_eq_some hreply
            obtain ⟨kind, hkind⟩ := Option.ne_none_iff_exists'.mp (h.underWay_back hother hunderWay)
            have hnone := hquiet other (h.le hother)
            rw [hkind, Option.bind_some, ← Collection.request?_of_underWay? hkind,
              ← h.request?_step hother, hrequest] at hnone
            cases hnone
          next => exact htouched
        sinceLast := fun _ _ _ hother hreply => absurd hother (hdropped hreply)
        sinceApplied := fun _ _ _ _ hother hreply => absurd hother (hdropped hreply)
        sincePresent := fun _ _ _ hother hreply => absurd hother (hdropped hreply) }
  · rw [if_neg hcurrent]
    exact hstep

/-- What is on its way does not depend on what the collection has. -/
theorem Answers.shown (h : s.Answers) (outdated : List Int) : Answers { s with outdated } :=
  { hook := h.hook, creations := h.creations, known := h.known, last := h.last, listed := h.listed
    updated := h.updated, removed := h.removed, after := h.after, touched := h.touched
    sinceLast := h.sinceLast, sinceApplied := h.sinceApplied, sincePresent := h.sincePresent }

/-- **An answer arrives.** -/
theorem Answers.deliver (h : s.Answers) (reply : BackendReply) : Answers (s.deliver g kind reply) := by
  cases reply with
  | listed result => exact h.deliverList
  | updated record => exact (h.hook_step (.updated g record) s.changes).shown _
  | removed =>
    cases kind with
    | remove serverID => exact (h.hook_step (.removed g) s.changes).shown _
    | load _ => exact h
    | update _ _ => exact h
  | failed error => exact h.hook_step (.failed g error) s.changes

end Delivering

/-! ## What the collection has -/

section Showing

variable {s : Client} {g : Nat} {id : Int} {kind : Collection.Kind}

/-- Where neither the collection nor the registry is changed, nothing new is to be shown. -/
theorem Shown.congr {s' : Client} (h : s.Shown) (hook : s'.hook = s.hook)
    (current : ∀ id, s'.current? id = s.current? id) (pending : ∀ id, s'.Pending id ↔ s.Pending id)
    (installed : s'.installed = s.installed) (last : s'.last = s.last)
    (outdated : s'.outdated = s.outdated) : s'.Shown where
  ids := by
    rw [hook]
    exact h.ids
  present hinstalled id hcurrent hpending := by
    unfold shown?
    rw [hook]
    exact h.present (installed.symm.trans hinstalled) id (current id ▸ hcurrent)
      fun hp => hpending ((pending id).mpr hp)
  right hinstalled id hpending houtdated happlied := by
    unfold shown?
    rw [hook, current]
    refine h.right (installed.symm.trans hinstalled) id (fun hp => hpending ((pending id).mpr hp))
      (outdated ▸ houtdated) fun g hlast => ?_
    obtain ⟨kind, hcall⟩ := happlied g (last ▸ hlast)
    exact ⟨kind, hook ▸ hcall⟩

/-- What an update or a removal has changed is not shown before it is answered. -/
theorem Shown.affect (h : s.Shown) (hunderWay : s.hook.underWay? g = some kind) {registry : Registry}
    {reply : BackendReply} (ha : Affects s.registry registry id) : (s.affect g id registry reply).Shown where
  ids := h.ids
  present hinstalled other hcurrent hpending := by
    refine h.present hinstalled other (fun hnone => ?_) hpending
    by_cases heq : other = id
    · rw [heq] at hnone
      exact ha.found (Option.map_eq_none_iff.mp hnone)
    · exact hcurrent ((ha.others other heq).trans hnone)
  right hinstalled other hpending houtdated happlied := by
    have hlast : (s.affect g id registry reply).last other =
        if other = id then some g else s.last other := Function.update_apply s.last id (some g) other
    by_cases heq : other = id
    · obtain ⟨kind', hcall⟩ := happlied g (hlast.trans (if_pos heq))
      have hpendingCall := (Collection.calls_of_underWay? hunderWay).symm.trans hcall
      cases hpendingCall
    · refine (h.right hinstalled other hpending houtdated fun g' hg' => ?_).trans
        (ha.others other heq).symm
      exact happlied g' ((hlast.trans (if_neg heq)).trans hg')

/-- A request that takes effect, or fails, is not seen. -/
theorem Shown.serve (h : s.Shown) (hunderWay : s.hook.underWay? g = some kind) (error : String)
    (stamp : Int → ServerRecord) : (s.serve g kind error stamp).Shown := by
  have hsame : ∀ {registry : Registry}, Same s.registry registry →
      Shown { s.answer g (.failed error) with registry } := fun hsame =>
    h.congr rfl hsame.servers (fun _ => Iff.rfl) rfl rfl rfl
  cases kind with
  | load revisionAtStart =>
    exact h.congr rfl (fun _ => rfl) (fun _ => Iff.rfl) rfl rfl rfl
  | update serverID action =>
    unfold Client.serve
    dsimp only
    split
    next => exact h
    next =>
      split
      next registry hperform => exact h.affect hunderWay (perform_ok hperform).1
      next registry hperform => exact hsame (perform_error hperform)
  | remove serverID =>
    unfold Client.serve
    dsimp only
    split
    next registry hdelete => exact h.affect hunderWay (delete_ok hdelete).1
    next registry hdelete => exact hsame (delete_error hdelete)

/-- A server that is created is pending. -/
theorem Shown.create (h : s.Shown) (name : String) (stamp : ServerRecord) :
    (s.create name stamp).Shown := by
  unfold Client.create
  split
  next server token registry hcreate =>
    have hc : Creates s.registry registry server := create_ok hcreate
    have hold : ∀ {id}, ¬ (∃ other ∈ s.creations ++ [recordOf stamp server], other.id = id) →
        (registry.row? id).map Row.toServer = s.current? id ∧ ¬ s.Pending id := by
      intro id hpending
      have hne : id ≠ s.registry.nextID := fun heq =>
        hpending (pending_snoc.mpr (Or.inr (heq.trans hc.id.symm)))
      exact ⟨hc.others id hne, fun hp => hpending (pending_snoc.mpr (Or.inl hp))⟩
    exact
      { ids := h.ids
        present := fun hinstalled id hcurrent hpending => by
          obtain ⟨hsame, hbefore⟩ := hold hpending
          exact h.present hinstalled id (fun hnone => hcurrent (hsame.trans hnone)) hbefore
        right := fun hinstalled id hpending houtdated happlied => by
          obtain ⟨hsame, hbefore⟩ := hold hpending
          exact (h.right hinstalled id hbefore houtdated happlied).trans hsame.symm }
  next err registry hcreate =>
    exact h.congr rfl (create_error hcreate).servers (fun _ => Iff.rfl) rfl rfl rfl

theorem nodup_add {records : List ServerRecord} (h : (records.map ServerRecord.id).Nodup)
    (record : ServerRecord) :
    (((records.filter fun item => item.id != record.id) ++ [record]).map ServerRecord.id).Nodup := by
  rw [List.map_append, List.nodup_append]
  refine ⟨h.sublist (List.filter_sublist.map _), List.nodup_singleton _, ?_⟩
  intro id hid last hlast heq
  obtain ⟨item, hitem, rfl⟩ := List.mem_map.mp hid
  rw [List.map_singleton, List.mem_singleton] at hlast
  exact bne_iff_ne.mp (List.mem_filter.mp hitem).2 (heq.trans hlast)

/-- **A server that was created is added**: it is shown as its record has it. -/
theorem Shown.add (h : s.Shown) (record : ServerRecord) : (s.add record).Shown := by
  have hshown : ∀ id, (s.add record).shown? id =
      if id = record.id then some record.server else s.shown? id := fun _ => serverOf?_add
  have houtdated : ∀ {id}, id ∉ (s.add record).outdated → id ≠ record.id → id ∉ s.outdated := by
    intro id hnot hne hmem
    apply hnot
    unfold Client.add
    dsimp only
    split
    next => exact List.mem_filter.mpr ⟨hmem, bne_iff_ne.mpr hne⟩
    next => exact List.mem_cons_of_mem _ hmem
  exact
    { ids := nodup_add h.ids record
      present := fun hinstalled id hcurrent hpending => by
        rw [hshown]
        split
        next => exact Option.some_ne_none _
        next hne =>
          exact h.present hinstalled id hcurrent fun hp => hpending (pending_filter.mpr ⟨hp, hne⟩)
      right := fun hinstalled id hpending hnot happlied => by
        rw [hshown]
        split
        next heq =>
          by_cases hcurrent : s.current? record.id = some record.server
          · rw [heq]
            exact hcurrent.symm
          · refine absurd ?_ hnot
            unfold Client.add
            dsimp only
            rw [if_neg hcurrent, heq]
            exact List.mem_cons_self
        next hne =>
          exact h.right hinstalled id (fun hp => hpending (pending_filter.mpr ⟨hp, hne⟩))
            (houtdated hnot hne) happlied }

/-- A list is taken over if it is current, and not otherwise. -/
theorem servers_listed_current {result : List ServerRecord} (h : s.hook.Current g) :
    (s.hook.step (.listed g result)).servers = result := by
  refine (Collection.servers_step_listed (fun kind hkind => ?_) result).trans
    (if_pos ⟨ne_none_of_eq_some h.1, h.2, rfl⟩)
  exact Option.some.inj (hkind.symm.trans h.1)

theorem servers_listed_not_current {result : List ServerRecord} (h : ¬ s.hook.Current g) :
    (s.hook.step (.listed g result)).servers = s.hook.servers := by
  cases hunderWay : s.hook.underWay? g with
  | none => rw [Collection.step, hunderWay]
  | some kind =>
    cases kind with
    | load revisionAtStart =>
      have hkind : ∀ kind, s.hook.underWay? g = some kind → kind = .load revisionAtStart :=
        fun kind hkind => Option.some.inj (hkind.symm.trans hunderWay)
      refine (Collection.servers_step_listed hkind result).trans (if_neg ?_)
      rintro ⟨_, hlatest, hrevision⟩
      exact h ⟨hrevision ▸ hunderWay, hlatest⟩
    | update _ _ => rw [Collection.step, hunderWay]
    | remove _ => rw [Collection.step, hunderWay]

/-- **The answer of a list arrives.** A server it does not say the truth of has been changed by a
request that was not applied. -/
theorem Shown.deliverList (h : s.Shown) (ha : s.Answers) {result : List ServerRecord}
    (hreply : s.replies g = some (.listed result)) : (s.deliverList g result).Shown := by
  unfold Client.deliverList
  dsimp only
  split
  next hcurrent =>
    obtain ⟨hnodup, hlisted⟩ := ha.listed g result hreply
    have hservers : (s.hook.step (.listed g result)).servers = result :=
      servers_listed_current hcurrent
    exact
      { ids := by
          show ((s.hook.step (.listed g result)).servers.map ServerRecord.id).Nodup
          rw [hservers]
          exact hnodup
        present := fun _ id hid hpending => by
          show serverOf? (s.hook.step (.listed g result)).servers id ≠ none
          rw [hservers]
          exact ha.sincePresent id g result hcurrent hreply hid hpending
        right := fun _ id hpending _ happlied => by
          show serverOf? (s.hook.step (.listed g result)).servers id = s.current? id
          rw [hservers]
          by_cases hsince : id ∈ s.since g
          · obtain ⟨g', hg'⟩ := Option.ne_none_iff_exists'.mp
              (ha.sinceLast id g result hcurrent hreply hsince hpending)
            have hkept : (if s.hook.Quiet then fun id => if id ∈ s.since g then s.last id else none
                else s.last) id = some g' := by
              split
              next => exact (if_pos hsince).trans hg'
              next => exact hg'
            obtain ⟨kind, hcall⟩ := happlied g' hkept
            rcases Collection.applied_back hcall with hbefore | hs
            · exact absurd ⟨kind, hbefore⟩ (ha.sinceApplied id g result g' hcurrent hreply hsince hg')
            · exact absurd hs (not_applied_listed kind g')
          · exact hlisted id hsince }
  next hcurrent =>
    exact h.hook_step (servers_listed_not_current hcurrent)
      (fun other kind => not_applied_listed kind other) s.changes

theorem ids_replaceServer (records : List ServerRecord) (next : ServerRecord) :
    (replaceServer records next).map ServerRecord.id = records.map ServerRecord.id := by
  unfold replaceServer
  rw [List.map_map]
  refine List.map_congr_left fun record _ => ?_
  show (if record.id = next.id then next else record).id = record.id
  split
  next heq => exact heq.symm
  next => rfl

/-- What the completion of a mutation does to the collection. -/
structure Changes (s : Client) (id : Int) (g : Nat)
    (change : List ServerRecord → List ServerRecord) : Prop where
  ids : ((change s.hook.servers).map ServerRecord.id).Nodup
  others : ∀ other, other ≠ id → serverOf? (change s.hook.servers) other = s.shown? other
  present : s.current? id ≠ none → s.shown? id ≠ none →
    serverOf? (change s.hook.servers) id ≠ none
  right : s.last id = some g → (s.current? id ≠ none → s.shown? id ≠ none) →
    serverOf? (change s.hook.servers) id = s.current? id

/-- **The answer of an update or a removal arrives.** Where it is the latest request for its
server and another took effect after it, the other was not applied. -/
theorem Shown.deliverMutation (h : s.Shown) (ha : s.Answers) {a : Collection.Action}
    {action : ServerPendingAction} {reply : BackendReply} (hunderWay : s.hook.underWay? g = some kind)
    (hkind : kind.request? = some (id, action)) (hreply : s.replies g = some reply)
    (hsuccess : reply.Success) {change : List ServerRecord → List ServerRecord}
    (hstep : s.hook.step a = s.hook.mutated id g kind change) (hc : Changes s id g change) :
    (s.deliverMutation g id a).Shown := by
  have hservers := (congrArg Collection.servers hstep).trans (Collection.servers_mutated change)
  unfold Client.deliverMutation Collection.isLatestServerRequest
  by_cases hlatest : AList.lookup id s.hook.latestServerGeneration = some g
  · rw [if_pos hlatest] at hservers
    rw [if_pos (beq_iff_eq.mpr hlatest)]
    have hback : ∀ {other kind'}, (s.hook.step a).calls other = some ⟨kind', .applied true⟩ →
        other ≠ g → s.Applied other := by
      intro other kind' hcall hne
      by_cases hbefore : s.hook.calls other = some ⟨kind', .applied true⟩
      · exact ⟨kind', hbefore⟩
      · rw [hstep] at hcall
        exact absurd (Collection.latest_of_mutated hunderWay hkind hbefore hcall).1 (Ne.symm hne)
    exact
      { ids := by
          show ((s.hook.step a).servers.map ServerRecord.id).Nodup
          rw [hservers]
          exact hc.ids
        present := fun hinstalled other hcurrent hpending => by
          have hbefore := h.present hinstalled other hcurrent hpending
          show serverOf? (s.hook.step a).servers other ≠ none
          rw [hservers]
          by_cases heq : other = id
          · rw [heq] at hcurrent hbefore ⊢
            exact hc.present hcurrent hbefore
          · rw [hc.others other heq]
            exact hbefore
        right := fun hinstalled other hpending houtdated happlied => by
          show serverOf? (s.hook.step a).servers other = s.current? other
          rw [hservers]
          by_cases heq : other = id
          · rw [heq] at hpending happlied ⊢
            have hrequest := (Collection.request?_of_underWay? hunderWay).trans hkind
            obtain ⟨g', hg'⟩ := Option.ne_none_iff_exists'.mp
              (ha.touched id g action reply hrequest (ne_none_of_eq_some hunderWay) hreply hsuccess)
            by_cases hlast : g' = g
            · exact hc.right (hlast ▸ hg') fun hcurrent => h.present hinstalled id hcurrent hpending
            · obtain ⟨kind', hcall⟩ := happlied g' hg'
              exact absurd (hback hcall hlast) (ha.after id g' g reply hlatest
                (ne_none_of_eq_some hunderWay) hreply hsuccess hg' hlast)
          · rw [hc.others other heq]
            refine h.right hinstalled other hpending (fun hmem => houtdated ?_) fun g' hg' => ?_
            · exact List.mem_filter.mpr ⟨hmem, bne_iff_ne.mpr heq⟩
            · obtain ⟨kind', hcall⟩ := happlied g' hg'
              refine hback hcall fun hg => heq ?_
              -- the request that was answered is for its own server only
              obtain ⟨_, _, action', hrequest⟩ := ha.last other g' hg'
              rw [hg, Collection.request?_of_underWay? hunderWay, hkind] at hrequest
              cases hrequest
              rfl }
  · rw [if_neg hlatest] at hservers
    rw [if_neg fun htrue => hlatest (beq_iff_eq.mp htrue)]
    refine h.hook_step hservers (fun other kind' hs => ?_) s.changes
    have hbefore : s.hook.calls other ≠ some ⟨kind', .applied true⟩ := by
      rw [Collection.calls_of_underWay? hs.underWay]
      exact fun heq => by cases heq
    have hcall := (Collection.calls_settles hs other).trans (if_pos rfl)
    rw [hstep] at hcall
    obtain ⟨rfl, _, hlookup⟩ := Collection.latest_of_mutated hunderWay hkind hbefore hcall
    exact hlatest hlookup

theorem servers_failed (s : Collection) (g : Nat) (error : String) :
    (s.step (.failed g error)).servers = s.servers := by
  rw [Collection.step]
  split
  next => rfl
  next => exact Collection.servers_listFailed error
  next => exact Collection.servers_mutationFailed error
  next => exact Collection.servers_mutationFailed error

/-- **An answer arrives.** -/
theorem Shown.deliver (h : s.Shown) (ha : s.Answers) (hunderWay : s.hook.underWay? g = some kind)
    {reply : BackendReply} (hreply : s.replies g = some reply) : (s.deliver g kind reply).Shown := by
  have hcalls := Collection.calls_of_underWay? hunderWay
  cases reply with
  | listed result => exact h.deliverList ha hreply
  | updated record =>
    obtain ⟨⟨call, action, hcall, hkind⟩, _, hcurrent⟩ := ha.updated g record hreply
    rw [hcalls] at hcall
    cases hcall
    dsimp only at hkind
    subst hkind
    have hshown : ∀ id, serverOf? (replaceServer s.hook.servers record) id =
        if id = record.id then (s.shown? id).map fun _ => record.server else s.shown? id :=
      fun _ => serverOf?_replaceServer record
    refine h.deliverMutation ha hunderWay rfl hreply trivial (by rw [Collection.step, hunderWay]) ?_
    exact
      { ids := by
          rw [ids_replaceServer]
          exact h.ids
        others := fun other hne => (hshown other).trans (if_neg hne)
        present := fun _ hold hnone => by
          rw [hshown, if_pos rfl] at hnone
          exact hold (Option.map_eq_none_iff.mp hnone)
        right := fun hlast hpresent => by
          have hregistry := hcurrent hlast
          obtain ⟨server, hserver⟩ :=
            Option.ne_none_iff_exists'.mp (hpresent (ne_none_of_eq_some hregistry))
          rw [hshown, if_pos rfl, hserver, hregistry]
          rfl }
  | removed =>
    obtain ⟨call, id, hcall, hkind, _, hnone⟩ := ha.removed g hreply
    rw [hcalls] at hcall
    cases hcall
    dsimp only at hkind
    subst hkind
    have hshown : ∀ other, serverOf? (s.hook.servers.filter fun record => record.id != id) other =
        if other = id then none else s.shown? other := fun _ => serverOf?_filter id
    refine h.deliverMutation ha hunderWay rfl hreply trivial (by rw [Collection.step, hunderWay]) ?_
    exact
      { ids := h.ids.sublist (List.filter_sublist.map _)
        others := fun other hne => (hshown other).trans (if_neg hne)
        present := fun hcurrent => absurd hnone hcurrent
        right := fun _ _ => ((hshown id).trans (if_pos rfl)).trans hnone.symm }
  | failed error =>
    refine h.hook_step (servers_failed s.hook g error) (fun other kind hs => ?_) s.changes
    rcases Collection.applied_cases hs with ⟨⟨_, heq⟩, _⟩ | ⟨heq, _⟩
    · cases heq
    · cases heq

end Showing

/-! ## Every run -/

/-- What holds in every run. -/
structure Inv (s : Client) : Prop where
  answers : s.Answers
  shown : s.Shown

section Runs

variable {s : Client}

theorem inv_start (registry : Registry) : (start registry).Inv where
  answers :=
    { hook := Collection.inv_new
      creations := fun _ h => absurd h List.not_mem_nil
      known := fun _ h => absurd rfl h
      last := fun _ _ h => by cases h
      listed := fun _ _ h => by cases h
      updated := fun _ _ h => by cases h
      removed := fun _ h => by cases h
      after := fun _ _ _ _ _ _ h => by cases h
      touched := fun _ _ _ _ _ _ h => by cases h
      sinceLast := fun _ _ _ _ h => by cases h
      sinceApplied := fun _ _ _ _ _ h => by cases h
      sincePresent := fun _ _ _ _ h => by cases h }
  shown :=
    { ids := List.nodup_nil
      present := fun h => by cases h
      right := fun h => by cases h }

/-- A call begins: what the collection has stays, and no call is applied. -/
theorem Inv.call (h : s.Inv) {a : Collection.Action} (changes : Nat → Option UpdateRequest)
    (hservers : (s.hook.step a).servers = s.hook.servers)
    (hnext : (s.hook.step a).nextGeneration = s.hook.nextGeneration + 1) :
    Inv { s with hook := s.hook.step a, changes } where
  answers := h.answers.hook_step a changes
  shown := h.shown.hook_step hservers
    (fun _ _ hs => absurd (hs.nextGeneration.symm.trans hnext) (Nat.ne_of_lt (Nat.lt_succ_self _)))
    changes

theorem Inv.step (h : s.Inv) (a : Action) : (s.step a).Inv := by
  cases a with
  | loadServers => exact h.call s.changes rfl rfl
  | updateServer serverID action change => exact h.call _ rfl rfl
  | removeServer serverID => exact h.call s.changes rfl rfl
  | create name stamp => exact ⟨h.answers.create name stamp, h.shown.create name stamp⟩
  | addServer serverID =>
    unfold Client.step
    dsimp only
    split
    next => exact h
    next record _ => exact ⟨h.answers.add record, h.shown.add record⟩
  | serve generation fails error stamp =>
    unfold Client.step
    dsimp only
    split
    next kind hunderWay _ =>
      split
      next =>
        exact ⟨h.answers.fail hunderWay error,
          h.shown.congr rfl (fun _ => rfl) (fun _ => Iff.rfl) rfl rfl rfl⟩
      next => exact ⟨h.answers.serve hunderWay error stamp, h.shown.serve hunderWay error stamp⟩
    next => exact h
  | deliver generation =>
    unfold Client.step
    dsimp only
    split
    next kind reply hunderWay hreply =>
      exact ⟨h.answers.deliver reply, h.shown.deliver h.answers hunderWay hreply⟩
    next => exact h

theorem inv_run (registry : Registry) (as : List Action) : (run step (start registry) as).Inv := by
  have hstep : ∀ (s : Client) (a : Action), s.Inv → (s.step a).Inv := fun _ a h => h.step a
  exact run_invariant hstep (inv_start registry) as

/-- **The collection converges to its backend.** When nothing is outstanding after a list was
taken over, the collection has the servers that the registry has, provided that of every server
the request that took effect last was applied, and that no server is shown as an outdated record
has it. -/
theorem converges (registry : Registry) (as : List Action) (hs : s = run step (start registry) as)
    (hrest : s.AtRest) (hinstalled : s.installed = true)
    (happlied : ∀ id g, s.last id = some g → s.Applied g) (houtdated : s.outdated = []) :
    (s.hook.servers.map ServerRecord.server).Perm s.registry.servers := by
  have hinv : s.Inv := hs ▸ inv_run registry as
  have hids : ((s.hook.servers.map ServerRecord.server).map Server.id).Nodup := by
    rw [List.map_map]
    exact hinv.shown.ids
  refine Table.perm_of_find? Server.id hids s.registry.nodup_servers fun id => ?_
  have hshown : s.shown? id = s.current? id := by
    refine hinv.shown.right hinstalled id ?_ (houtdated ▸ List.not_mem_nil) (happlied id)
    rintro ⟨record, hrecord, _⟩
    rw [hrest.creations] at hrecord
    exact absurd hrecord List.not_mem_nil
  rw [find?_servers, List.find?_map]
  exact hshown

/-- Requests are under way only among those that were made. -/
theorem atRest_of_known (hinv : s.hook.Inv)
    (hknown : ∀ g ≤ s.hook.nextGeneration, s.hook.underWay? g = none) (hcreations : s.creations = []) :
    s.AtRest where
  requests g := by
    by_cases hg : g ≤ s.hook.nextGeneration
    · exact hknown g hg
    · cases hkind : s.hook.underWay? g with
      | none => rfl
      | some kind => exact absurd (hinv.known g _ (Collection.calls_of_underWay? hkind)) hg
  creations := hcreations

end Runs

def web : Registry := Registry.empty.insert "web"

def blank : ServerRecord :=
  { id := 0, name := "", enabled := false, agentVersion := "", createdAt := "", updatedAt := "" }

/-- A server is switched off, then another is created. -/
def followed : List Action :=
  [.loadServers, .serve 1 false "" fun _ => blank, .deliver 1,
    .updateServer 1 .toggle (.set none (some false)), .serve 2 false "" fun _ => blank, .deliver 2,
    .create "db" blank, .addServer 2]

theorem followed_converges :
    ((run step (start web) followed).hook.servers.map ServerRecord.server).Perm
      [⟨1, "web", false⟩, ⟨2, "db", true⟩] := by
  have hinv := inv_run web followed
  refine converges web followed rfl (atRest_of_known hinv.answers.hook (by decide) rfl) rfl ?_
    (by decide)
  intro id g hlast
  obtain ⟨_, _, action, hrequest⟩ := hinv.answers.last id g hlast
  -- of the two requests, one is an update
  have hg : ∀ g ≤ 2, (run step (start web) followed).hook.request? g ≠ none → g = 2 := by decide
  have hle : g ≤ 2 := hinv.answers.le (hinv.answers.last id g hlast).2.1
  rw [hg g hle (ne_none_of_eq_some hrequest)]
  exact ⟨.update 1 .toggle, by decide⟩

/-- A server is switched off while the first list is read. -/
def overtaken : List Action :=
  [.loadServers, .updateServer 1 .toggle (.set none (some false)),
    .serve 1 false "" fun _ => blank, .serve 2 false "" fun _ => blank, .deliver 2, .deliver 1]

/-- **A list that is dropped is not asked for again**: the collection stays empty. -/
theorem overtaken_diverges :
    (run step (start web) overtaken).AtRest ∧
      (run step (start web) overtaken).hook.calls 1 = some ⟨.load 0, .returned⟩ ∧
      (run step (start web) overtaken).hook.loadState = .success ∧
      ¬ ((run step (start web) overtaken).hook.servers.map ServerRecord.server).Perm
        (run step (start web) overtaken).registry.servers := by
  refine ⟨atRest_of_known (inv_run web overtaken).answers.hook (by decide) rfl, by decide, by decide, ?_⟩
  intro hperm
  exact absurd hperm.length_eq (by decide)

end Client

end TinyProbe.Web
