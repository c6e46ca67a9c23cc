import TinyProbe.Servers.Registry
import TinyProbe.Web.Installation

/-!
# The collection and the server behind it

The page's requests are handled some time after they were sent, and their answers arrive some time
after that: a list is what the table has when it is read, and a removal is answered once the row is
deleted. Anybody else changes the table at any time (`Change`). What the records of a list say besides
their ids, and what an update is answered, is anything; so is what an update does, as the table may
change then like at any time.

`used` are the ids that a mutation was called for or that were added: `addServer` is called with
another. The table gives out no id twice, so a removed server is nobody's again (`Gone`).
-/

namespace TinyProbe.Web

open Servers Run

/-- A change of the registry. -/
inductive Change where
  | create (name : String) (outcome : Outcome)
  | update (id : Int) (name : Option String) (enabled : Option Bool) (outcome : Outcome)
  | delete (id : Int) (outcome : Outcome)
  | rotateToken (id : Int) (outcome : Outcome)
  | updateAgentVersion (id : Int) (version : String) (outcome : Outcome)

def Change.apply (r : Registry) : Change → Registry
  | .create name outcome => (Service.create r name outcome).2
  | .update id name enabled outcome => (Service.update r id name enabled outcome).2
  | .delete id outcome => (Service.delete r id outcome).2
  | .rotateToken id outcome => (Service.rotateTokenWithServer r id outcome).2
  | .updateAgentVersion id version outcome => (Service.updateAgentVersion r id version outcome).2

/-- What the server has answered a request. -/
inductive Reply where
  | listed (result : List ServerRecord)
  | deleted

/-- The registry, the collection of one page, and the answers by the generations of their calls. -/
structure Site where
  registry : Registry
  collection : Collection
  replies : Nat → Option Reply
  used : List Int

namespace Site

inductive Action where
  | change (c : Change)
  /-- The server handles a request: its list is `result`, its deletion ends in `outcome`. -/
  | serve (generation : Nat) (result : List ServerRecord) (outcome : Outcome)
  | loadServers
  | updateServer (serverID : Int) (action : ServerPendingAction)
  | removeServer (serverID : Int)
  | addServer (server : ServerRecord)
  /-- The answer to a list or a removal arrives. -/
  | deliver (generation : Nat)
  /-- The answer to an update arrives. -/
  | updated (generation : Nat) (updated : ServerRecord)
  | failed (generation : Nat) (error : String)

def initial (registry : Registry) : Site :=
  { registry, collection := .new, replies := fun _ => none, used := [] }

/-- A step of the page. -/
def act (s : Site) (a : Collection.Action) : Site := { s with collection := s.collection.step a }

def reply (s : Site) (generation : Nat) (r : Reply) : Site :=
  { s with replies := Function.update s.replies generation (some r) }

def serve (s : Site) (generation : Nat) (result : List ServerRecord) (outcome : Outcome) : Site :=
  match s.collection.underWay? generation with
  | some (.load _) =>
    if result.map ServerRecord.id = (Service.list s.registry).map Server.id then
      s.reply generation (.listed result)
    else s
  | some (.remove serverID) =>
    match Service.delete s.registry serverID outcome with
    | (.ok _, registry) => { s with registry }.reply generation .deleted
    | (.error _, registry) => { s with registry }
  | _ => s

def deliver (s : Site) (generation : Nat) : Site :=
  match s.replies generation with
  | none => s
  | some (.listed result) => s.act (.listed generation result)
  | some .deleted => s.act (.removed generation)

def step (s : Site) : Action → Site
  | .change c => { s with registry := c.apply s.registry }
  | .serve generation result outcome => s.serve generation result outcome
  | .loadServers => s.act .loadServers
  | .updateServer serverID action =>
    { s with used := serverID :: s.used }.act (.updateServer serverID action)
  | .removeServer serverID => { s with used := serverID :: s.used }.act (.removeServer serverID)
  | .addServer server =>
    if server.id ∈ s.used then s
    else { s with used := server.id :: s.used }.act (.addServer server)
  | .deliver generation => s.deliver generation
  | .updated generation updated => s.act (.updated generation updated)
  | .failed generation error => s.act (.failed generation error)

/-- The server is not in the table and will not be, nor is it in the collection or in a list that will
be installed. -/
structure Gone (s : Site) (id : Int) : Prop where
  deleted : s.registry.Knows id fun _ => False
  absent : ∀ server ∈ s.collection.servers, server.id ≠ id
  lists : ∀ g result,
    s.collection.underWay? g = some (.load s.collection.mutationRevision) →
      s.replies g = some (.listed result) → ∀ server ∈ result, server.id ≠ id

structure Inv (s : Site) : Prop where
  collection : s.collection.Inv
  replied : ∀ g r, s.replies g = some r → ∃ call, s.collection.calls g = some call
  deleted : ∀ g id ending, s.collection.calls g = some ⟨.remove id, ending⟩ →
    s.replies g = some .deleted → s.registry.Knows id fun _ => False
  used : ∀ g id ending, s.collection.calls g = some ⟨.remove id, ending⟩ → id ∈ s.used
  gone : ∀ g id, s.collection.calls g = some ⟨.remove id, .applied true⟩ → s.Gone id

section Laws

variable {s : Site} {id : Int} {g : Nat}

theorem Inv.replied_le (h : s.Inv) {r : Reply} (hreply : s.replies g = some r) :
    g ≤ s.collection.nextGeneration := by
  obtain ⟨call, hcall⟩ := h.replied g r hreply
  exact h.collection.known g call hcall

theorem knows_apply {r : Registry} (h : r.Knows id fun _ => False) (c : Change) :
    (c.apply r).Knows id fun _ => False := by
  cases c with
  | create name outcome => exact Service.knows_create h name outcome
  | update id' name enabled outcome => exact Service.knows_update h fun _ _ _ hfalse => hfalse
  | delete id' outcome => exact Service.knows_delete h outcome
  | rotateToken id' outcome => exact Service.knows_rotate h outcome
  | updateAgentVersion id' version outcome => exact Service.knows_updateAgentVersion h version outcome

/-- A deleted server is in no list. -/
theorem not_mem_list {r : Registry} (h : r.Knows id fun _ => False) {result : List ServerRecord}
    (hresult : result.map ServerRecord.id = (Service.list r).map Server.id) :
    ∀ server ∈ result, server.id ≠ id := by
  rintro server hserver rfl
  have hmem : server.id ∈ (Service.list r).map Server.id := hresult ▸ List.mem_map_of_mem hserver
  obtain ⟨row, hrow, hid⟩ := List.mem_map.mp hmem
  obtain ⟨found, hfound, _⟩ := Registry.row?_of_mem_servers hrow
  rw [hid] at hfound
  exact h.2 found hfound

/-- The registry changes, and a deleted server stays deleted. -/
theorem Gone.registry (h : s.Gone id) {registry : Registry}
    (hknows : registry.Knows id fun _ => False) : ({ s with registry } : Site).Gone id :=
  ⟨hknows, h.absent, h.lists⟩

theorem Inv.registry (h : s.Inv) {registry : Registry}
    (hknows : ∀ id, s.registry.Knows id (fun _ => False) → registry.Knows id fun _ => False) :
    ({ s with registry } : Site).Inv :=
  ⟨h.collection, h.replied,
    fun g id ending hcall hreply => hknows id (h.deleted g id ending hcall hreply),
    h.used, fun g id hcall => (h.gone g id hcall).registry (hknows id (h.gone g id hcall).deleted)⟩

/-- An answer is given to a request that is under way. -/
theorem Inv.reply (h : s.Inv) {kind : Collection.Kind}
    (hunderWay : s.collection.underWay? g = some kind) {r : Reply}
    (hdeleted : ∀ id, kind = .remove id → r = .deleted → s.registry.Knows id fun _ => False)
    (hlisted : ∀ id result, s.registry.Knows id (fun _ => False) → r = .listed result →
      ∀ server ∈ result, server.id ≠ id) : (s.reply g r).Inv := by
  have hreplies : ∀ g', (s.reply g r).replies g' = if g' = g then some r else s.replies g' :=
    fun g' => Function.update_apply ..
  refine ⟨h.collection, ?_, ?_, h.used, ?_⟩
  · intro g' r' hr'
    rw [hreplies] at hr'
    split at hr'
    next heq => exact ⟨_, heq ▸ Collection.calls_of_underWay? hunderWay⟩
    next => exact h.replied g' r' hr'
  · intro g' id ending hcall hr'
    rw [hreplies] at hr'
    split at hr'
    next heq =>
      have hkind := (Collection.calls_of_underWay? hunderWay).symm.trans (heq ▸ hcall)
      cases hkind
      exact hdeleted id rfl (Option.some.inj hr')
    next => exact h.deleted g' id ending hcall hr'
  · intro g' id hcall
    have hgone := h.gone g' id hcall
    refine ⟨hgone.deleted, hgone.absent, fun g'' result hload hr' => ?_⟩
    rw [hreplies] at hr'
    split at hr'
    next => exact hlisted id result hgone.deleted (Option.some.inj hr')
    next => exact hgone.lists g'' result hload hr'

theorem knows_of_delete {r registry : Registry} {outcome : Outcome} {p : Server → Prop}
    (h : Service.delete r id outcome = (.ok (), registry)) : registry.Knows id p := by
  unfold Service.delete at h
  split at h
  next => cases h
  next =>
    split at h
    next => cases h
    next hrow =>
      cases h
      exact Registry.knows_delete (Registry.lt_nextID hrow)

theorem Inv.serve (h : s.Inv) (result : List ServerRecord) (outcome : Outcome) :
    (s.serve g result outcome).Inv := by
  unfold Site.serve
  split
  next hunderWay =>
    split
    next hresult =>
      refine h.reply hunderWay (fun id hkind => by cases hkind) fun id result' hknows heq => ?_
      cases heq
      exact not_mem_list hknows hresult
    next => exact h
  next serverID hunderWay =>
    have hkeeps : ∀ id, s.registry.Knows id (fun _ => False) →
        (Service.delete s.registry serverID outcome).2.Knows id fun _ => False :=
      fun id hknows => Service.knows_delete hknows outcome
    split
    next registry hdelete =>
      rw [hdelete] at hkeeps
      refine (h.registry hkeeps).reply hunderWay (fun id hkind _ => ?_) fun id result' _ heq => by
        cases heq
      cases hkind
      exact knows_of_delete hdelete
    next registry hdelete =>
      rw [hdelete] at hkeeps
      exact h.registry hkeeps
  next => exact h

/-- A step of the page leaves a server gone that it does not bring back. -/
theorem Gone.act (h : s.Gone id) (hs : s.Inv) {a : Collection.Action}
    (habsent : ∀ server ∈ (s.collection.step a).servers, server.id ≠ id) : (s.act a).Gone id := by
  refine ⟨h.deleted, habsent, fun g result hload hreply => ?_⟩
  -- a list request that is not stale now was not stale before
  have hold := Collection.underWay?_back (hs.replied_le hreply) hload
  have hle := hs.collection.revision_le g _ hold
  have hsame : (s.collection.step a).mutationRevision = s.collection.mutationRevision :=
    Nat.le_antisymm hle (hs.collection.marks a).1
  exact h.lists g result (hsame ▸ hold) hreply

/-- **A step of the page.** -/
theorem Inv.act (hs : s.Inv) {a : Collection.Action} (hused : ∀ id, a.Begins id → id ∈ s.used)
    (habsent : ∀ g id, s.collection.calls g = some ⟨.remove id, .applied true⟩ → s.Gone id →
      ∀ server ∈ (s.collection.step a).servers, server.id ≠ id)
    (hremoved : ∀ g, a = .removed g → s.replies g = some .deleted) : (s.act a).Inv := by
  have hback : ∀ g r call, s.replies g = some r → (s.collection.step a).calls g = some call →
      ∃ old, s.collection.calls g = some old ∧ old.kind = call.kind := by
    intro g r call hreply hcall
    refine (Collection.calls_cases hcall).resolve_right fun hnew => ?_
    have hle := hs.replied_le hreply
    omega
  have hdeleted : ∀ g id ending, (s.collection.step a).calls g = some ⟨.remove id, ending⟩ →
      s.replies g = some .deleted → s.registry.Knows id fun _ => False := by
    intro g id ending hcall hreply
    obtain ⟨⟨kind, ending'⟩, hold, hkind⟩ := hback g _ _ hreply hcall
    dsimp only at hkind
    exact hs.deleted g id ending' (hkind ▸ hold) hreply
  refine ⟨hs.collection.step a, ?_, hdeleted, ?_, ?_⟩
  · intro g r hreply
    obtain ⟨call, hcall⟩ := hs.replied g r hreply
    obtain ⟨call', hcall', _⟩ := hs.collection.kind_step hcall a
    exact ⟨call', hcall'⟩
  · intro g id ending hcall
    rcases Collection.calls_cases hcall with ⟨⟨kind, ending'⟩, hold, hkind⟩ | ⟨_, hbegins⟩
    · dsimp only at hkind
      exact hs.used g id ending' (hkind ▸ hold)
    · exact hused id (hbegins id .delete rfl)
  · intro g id hcall
    by_cases hbefore : s.collection.calls g = some ⟨.remove id, .applied true⟩
    · have hgone := hs.gone g id hbefore
      exact hgone.act hs (habsent g id hbefore hgone)
    · obtain ⟨ha, hlt, habsent⟩ := Collection.removed_step hbefore hcall
      refine ⟨hdeleted g id _ hcall (hremoved g ha), habsent, fun g' result hload hreply => ?_⟩
      -- a removal makes every list request stale
      have hold := Collection.underWay?_back (hs.replied_le hreply) hload
      have hle := hs.collection.revision_le g' _ hold
      exact absurd hlt (Nat.not_lt_of_le hle)

/-- Ids are used, and nothing else happens. -/
theorem Inv.use (h : s.Inv) (id : Int) : ({ s with used := id :: s.used } : Site).Inv :=
  ⟨h.collection, h.replied, h.deleted,
    fun g id' ending hcall => List.mem_cons_of_mem _ (h.used g id' ending hcall), fun g id' hcall =>
      have hgone := h.gone g id' hcall
      ⟨hgone.deleted, hgone.absent, hgone.lists⟩⟩

/-- A step of the page that neither adds a server nor installs a list nor removes a server. -/
theorem Inv.act_quiet (hs : s.Inv) {a : Collection.Action} (hused : ∀ id, a.Begins id → id ∈ s.used)
    (hadd : ∀ server, a ≠ .addServer server) (hlist : ∀ g result, a ≠ .listed g result)
    (hremoved : ∀ g, a ≠ .removed g) : (s.act a).Inv :=
  hs.act hused
    (fun _ _ _ hgone => Collection.absent_step hgone.absent (fun server heq => absurd heq (hadd server))
      fun g result heq => absurd heq (hlist g result))
    fun g heq => absurd heq (hremoved g)

theorem Inv.addServer (hs : s.Inv) {server : ServerRecord} (hfresh : server.id ∉ s.used) :
    ({ s with used := server.id :: s.used }.act (.addServer server) : Site).Inv := by
  refine (hs.use server.id).act (fun id hbegins => by cases hbegins) (fun g id hcall hgone => ?_)
    fun g heq => by cases heq
  refine Collection.absent_step hgone.absent ?_ fun g result heq => by cases heq
  rintro _ heq rfl
  cases heq
  exact hfresh (hs.used g server.id _ hcall)

theorem Inv.deliver (hs : s.Inv) : (s.deliver g).Inv := by
  unfold Site.deliver
  split
  next => exact hs
  next result hreply =>
    refine hs.act (fun id hbegins => by cases hbegins) (fun _ _ _ hgone => ?_) fun g heq => by cases heq
    apply Collection.absent_step hgone.absent (fun server heq => by cases heq)
    intro g' result' heq hload
    cases heq
    exact hgone.lists g result hload hreply
  next hreply =>
    refine hs.act (fun id hbegins => by cases hbegins) (fun _ _ _ hgone => ?_) fun g' heq => ?_
    · exact Collection.absent_step hgone.absent (fun server heq => by cases heq)
        fun g result heq => by cases heq
    · cases heq
      exact hreply

/-- **One step.** -/
theorem Inv.step (hs : s.Inv) (a : Action) : (s.step a).Inv := by
  cases a with
  | change c => exact hs.registry fun id hknows => knows_apply hknows c
  | serve g result outcome => exact hs.serve result outcome
  | loadServers =>
    exact hs.act_quiet (fun id h => by cases h) (fun _ h => by cases h) (fun _ _ h => by cases h)
      fun _ h => by cases h
  | updateServer id action =>
    exact (hs.use id).act_quiet (fun _ h => h ▸ List.mem_cons_self) (fun _ h => by cases h)
      (fun _ _ h => by cases h) fun _ h => by cases h
  | removeServer id =>
    exact (hs.use id).act_quiet (fun _ h => h ▸ List.mem_cons_self) (fun _ h => by cases h)
      (fun _ _ h => by cases h) fun _ h => by cases h
  | addServer server =>
    simp only [Site.step]
    split
    next => exact hs
    next hfresh => exact hs.addServer hfresh
  | deliver g => exact hs.deliver
  | updated g updated =>
    exact hs.act_quiet (fun id h => by cases h) (fun _ h => by cases h) (fun _ _ h => by cases h)
      fun _ h => by cases h
  | failed g error =>
    exact hs.act_quiet (fun id h => by cases h) (fun _ h => by cases h) (fun _ _ h => by cases h)
      fun _ h => by cases h

theorem inv_initial (registry : Registry) : (initial registry).Inv := by
  refine ⟨Collection.inv_new, ?_, ?_, ?_, ?_⟩
  · intro g r h
    cases h
  · intro g id ending h
    cases h
  · intro g id ending h
    cases h
  · intro g id h
    cases h

theorem inv_run (registry : Registry) (as : List Action) : (run step (initial registry) as).Inv :=
  run_invariant (fun _ a hs => hs.step a) (inv_initial registry) as

theorem collection_serve (result : List ServerRecord) (outcome : Outcome) :
    (s.serve g result outcome).collection = s.collection := by
  unfold serve
  split
  next =>
    split
    next => rfl
    next => rfl
  next =>
    split
    next => rfl
    next => rfl
  next => rfl

/-- What the server does is nothing the collection could not meet anyway. -/
theorem collection_step (a : Action) : (s.step a).collection = s.collection ∨
    ∃ b, (s.step a).collection = s.collection.step b := by
  cases a with
  | change c => exact Or.inl rfl
  | serve g result outcome => exact Or.inl (collection_serve result outcome)
  | loadServers => exact Or.inr ⟨.loadServers, rfl⟩
  | updateServer id action => exact Or.inr ⟨.updateServer id action, rfl⟩
  | removeServer id => exact Or.inr ⟨.removeServer id, rfl⟩
  | addServer server =>
    simp only [step]
    split
    next => exact Or.inl rfl
    next => exact Or.inr ⟨.addServer server, rfl⟩
  | deliver g =>
    simp only [step, deliver]
    split
    next => exact Or.inl rfl
    next result _ => exact Or.inr ⟨.listed g result, rfl⟩
    next => exact Or.inr ⟨.removed g, rfl⟩
  | updated g updated => exact Or.inr ⟨.updated g updated, rfl⟩
  | failed g error => exact Or.inr ⟨.failed g error, rfl⟩

/-- The collection of a page takes the steps of a collection. -/
theorem collection_run (registry : Registry) (as : List Action) :
    ∃ bs, (run step (initial registry) as).collection = run Collection.step .new bs := by
  refine @run_invariant _ _ _ (fun s : Site => ∃ bs, s.collection = run Collection.step .new bs) ?_ _
    ⟨[], rfl⟩ as
  rintro s a ⟨bs, hbs⟩
  rcases collection_step a with hsame | ⟨b, hb⟩
  · exact ⟨bs, hsame.trans hbs⟩
  · exact ⟨bs ++ [b], by rw [hb, hbs, run_snoc]⟩

end Laws

/-- **The collection never installs stale data.** Once a removal has resolved with `applied: true` its
server is not in the collection again. Whatever the requests are answered, an entry of
`pendingByServer` is of the most recently begun request for its server, and a list or an update is
installed exactly if nothing came in between that makes it stale. -/
theorem collection_never_stale :
    (∀ registry (as : List Action) g id,
      (run step (initial registry) as).collection.calls g = some ⟨.remove id, .applied true⟩ →
        ∀ server ∈ (run step (initial registry) as).collection.servers, server.id ≠ id) ∧
    ∀ as : List Collection.Action, (run Collection.step .new as).PendingCurrent ∧
      ∀ bs, (run Collection.step .new as).ListCurrent bs ∧
        ∀ id action, (run Collection.step .new as).UpdateCurrent id action bs := by
  refine ⟨fun registry as g id hcall => ((inv_run registry as).gone g id hcall).absent, fun as => ?_⟩
  have h := Collection.inv_run as
  exact ⟨h.pending, fun bs => ⟨h.listCurrent bs, fun id action => h.updateCurrent id action bs⟩⟩

end Site

end TinyProbe.Web
