import TinyProbe.Live.Steps
import Mathlib.Data.List.Induction

/-!
# The order in which reports arrive

`Handler.Ingest` stamps a report before its `Accept` competes for the lock, so the order in which
the calls take the lock need not be the order of their stamps. While one call holds the lock the
others wait, so a run of concurrent calls is given by the order in which they take it: `ingested` is
the state when the calls of a list have taken it one after another.

The history accumulator keeps the values of a report only if no younger report has been added. The
live store keeps whatever came last.
-/

namespace TinyProbe.Servers.Service

/-- An authenticated report's version is stored, and the token stays good. -/
theorem authenticateToken_version {r : Registry} {token : Token} {server : Server}
    (h : authenticateToken r token false = .ok server) (version : String) :
    (updateAgentVersion r server.id version .ok).1 = .ok () ∧
      authenticateToken (updateAgentVersion r server.id version .ok).2 token false =
        .ok server := by
  obtain ⟨row, hrow, heq, htoken, henabled⟩ := authenticateToken_row h
  have hversion : updateAgentVersion r server.id version .ok =
      (.ok (), r.update server.id fun row => { row with agentVersion := version }) := by
    simp only [updateAgentVersion, hrow]
  rw [hversion]
  refine ⟨rfl, ?_⟩
  obtain ⟨hmem, hid⟩ := Registry.row?_iff.mp hrow
  have howner : (r.update server.id fun row => { row with agentVersion := version }).owner? token =
      some { row with agentVersion := version } := by
    refine Registry.owner?_iff.mpr ⟨?_, htoken⟩
    refine List.mem_map.mpr ⟨row, hmem, ?_⟩
    rw [if_pos hid]
  have henabled' : row.enabled = true := by
    rw [← heq] at henabled
    exact henabled
  rw [authenticateToken, if_neg Bool.false_ne_true, howner]
  show (if row.enabled = true then Except.ok row.toServer else Except.error ServiceError.disabled) =
    .ok server
  rw [if_pos henabled', heq]

end TinyProbe.Servers.Service

namespace TinyProbe.Live.Coordinator

open Servers Protocol History Run

variable {F : Type} [Float64 F]

/-- A call takes the lock, goes through its five steps and returns. -/
def ingest (call : Call F) : List (Action F) :=
  [.accept call, .proceed .ok, .proceed .ok, .proceed .ok, .proceed .ok, .proceed .ok]

/-- The state when calls have taken the lock in this order. -/
def ingested (tables : Tables F) (calls : List (Call F)) : Coordinator F :=
  run step (initial tables) (calls.flatMap ingest)

/-- The live snapshot of a server is the most recently received report: its `LastReceivedAt` never
decreases, in the end it is that of the youngest report, and what it shows is what the accumulator
of its minute has kept. -/
structure MostRecent (tables : Tables F) (id : Int) (calls : List (Call F)) : Prop where
  ascends : ∀ before call after, calls = before ++ call :: after → ∀ old new,
    (ingested tables before).store.get id = some old →
    (ingested tables (before ++ [call])).store.get id = some new →
      old.lastReceivedAt.ns ≤ new.lastReceivedAt.ns
  youngest : ∀ snapshot, (ingested tables calls).store.get id = some snapshot →
    ∃ call ∈ calls, snapshot.report = call.report ∧ snapshot.lastReceivedAt = call.receivedAt ∧
      ∀ other ∈ calls, other.receivedAt.ns ≤ call.receivedAt.ns
  recorded : ∀ snapshot, (ingested tables calls).store.get id = some snapshot →
    ∃ bucket, (ingested tables calls).history.bucket? (.of id snapshot.lastReceivedAt) =
      some bucket ∧ bucket.accumulator.LastValues snapshot.report

/-! ## What the calls leave -/

/-- What the reports of some calls add up to. -/
def total (calls : List (Call F)) : Accumulator F :=
  calls.foldl (fun a call => a.addAt call.report call.receivedAt) .zero

/-- The calls whose reports go to a bucket. -/
def callsOf (id : Int) (key : Key) (calls : List (Call F)) : List (Call F) :=
  calls.filter fun call => Key.of id call.receivedAt == key

/-- The state after the calls `calls` of a server. -/
structure After (token : Token) (server : Server) (calls : List (Call F)) (s : Coordinator F) :
    Prop where
  free : s.holder = none
  auth : Service.authenticateToken s.registry token false = .ok server
  stored : s.store.get server.id = calls.getLast?.map fun call =>
    Store.snapshotOf server call.report call.receivedAt call.sourceIP
  buckets : ∀ key, s.history.bucket? key = none ∧ callsOf server.id key calls = [] ∨
    ∃ b, s.history.bucket? key = some b ∧ b.accumulator = total (callsOf server.id key calls)

section Runs

variable {token : Token} {server : Server} {s : Coordinator F} {calls : List (Call F)}

theorem total_snoc (calls : List (Call F)) (call : Call F) :
    total (calls ++ [call]) = (total calls).addAt call.report call.receivedAt :=
  List.foldl_append

/-- The first two steps of a call that is let through. -/
theorem ingest_versioned (hfree : s.holder = none) {call : Call F}
    (hauth : Service.authenticateToken s.registry call.token false = .ok server) :
    ((s.step (.accept call)).step (.proceed .ok)).step (.proceed .ok) =
      { s with
        registry := (Service.updateAgentVersion s.registry server.id call.report.agentVersion
          .ok).2
        holder := some ⟨.accept call, .storing call server, s.view⟩ } := by
  have haccept : s.step (.accept call) =
      { s with holder := some ⟨.accept call, .authenticating call, s.view⟩ } := by
    rw [step, lock, hfree]
  have hauthenticated : (s.step (.accept call)).step (.proceed .ok) =
      { s with holder := some ⟨.accept call, .versioning call server, s.view⟩ } := by
    rw [haccept, step]
    dsimp only
    rw [proceed]
    dsimp only
    rw [decide_eq_false fun hne => hne rfl, hauth]
    rfl
  have hversion : Service.updateAgentVersion s.registry server.id call.report.agentVersion .ok =
      (.ok (), (Service.updateAgentVersion s.registry server.id call.report.agentVersion .ok).2) :=
    Prod.ext (Service.authenticateToken_version hauth call.report.agentVersion).1 rfl
  rw [hauthenticated, step]
  dsimp only
  rw [proceed]
  dsimp only
  rw [hversion]
  rfl

/-- What a call that is let through leaves. -/
theorem ingest_effect (hfree : s.holder = none) {call : Call F}
    (hauth : Service.authenticateToken s.registry call.token false = .ok server) :
    let s' := run step s (ingest call)
    s'.holder = none ∧
      s'.registry = (Service.updateAgentVersion s.registry server.id call.report.agentVersion
        .ok).2 ∧
      s'.store = (s.store.upsertFrom server call.report call.receivedAt call.sourceIP).2 ∧
      s'.history = s.history.step (.accept server.id call.report call.receivedAt) := by
  rw [ingest, run_cons, run_cons, run_cons, ingest_versioned hfree hauth]
  exact ⟨rfl, rfl, rfl, rfl⟩

theorem After.ingest (hs : After token server calls s) {call : Call F}
    (htoken : call.token = token) :
    After token server (calls ++ [call]) (run step s (ingest call)) := by
  obtain ⟨hfree, hregistry, hstore, hhistory⟩ := ingest_effect hs.free (htoken ▸ hs.auth)
  refine ⟨hfree, ?_, ?_, ?_⟩
  · rw [hregistry]
    exact (Service.authenticateToken_version hs.auth _).2
  · rw [hstore, Store.get_upsertFrom, if_pos rfl, List.getLast?_append, List.getLast?_singleton]
    rfl
  · intro key
    rw [hhistory]
    have haccept := s.history.bucket?_step_accept server.id call.report call.receivedAt key
    have hcalls : callsOf server.id key (calls ++ [call]) =
        callsOf server.id key calls ++ if key = .of server.id call.receivedAt then [call] else [] := by
      rw [callsOf, List.filter_append, List.filter_singleton]
      by_cases hkey : key = .of server.id call.receivedAt
      · rw [if_pos hkey, hkey, beq_self_eq_true]
        rfl
      · rw [if_neg hkey, beq_eq_false_iff_ne.mpr fun heq => hkey heq.symm]
        rfl
    rw [haccept, hcalls]
    by_cases hkey : key = .of server.id call.receivedAt
    · rw [if_pos hkey, if_pos hkey]
      refine Or.inr ⟨_, rfl, ?_⟩
      rw [total_snoc]
      show Accumulator.addAt _ call.report call.receivedAt = _
      rcases hs.buckets key with ⟨hnone, hcalls⟩ | ⟨b, hb, htotal⟩
      · rw [hnone, hcalls]
        rfl
      · rw [hb, ← htotal]
        rfl
    · rw [if_neg hkey, if_neg hkey, List.append_nil]
      exact hs.buckets key

theorem ingested_snoc (tables : Tables F) (calls : List (Call F)) (call : Call F) :
    ingested tables (calls ++ [call]) = run step (ingested tables calls) (ingest call) := by
  rw [ingested, List.flatMap_append, run_append, List.flatMap_singleton]
  rfl

theorem after_ingested {tables : Tables F}
    (hauth : Service.authenticateToken tables.registry token false = .ok server)
    (htokens : ∀ call ∈ calls, call.token = token) :
    After token server calls (ingested tables calls) := by
  induction calls using List.reverseRecOn with
  | nil =>
    refine ⟨rfl, hauth, ?_, fun key => Or.inl ⟨rfl, rfl⟩⟩
    exact Store.get_empty _
  | append_singleton calls call ih =>
    rw [ingested_snoc]
    refine (ih fun other hother => htokens other (List.mem_append_left _ hother)).ingest ?_
    exact htokens call (List.mem_append_right _ List.mem_cons_self)

theorem notAfter_total {t : Time} (h : ∀ call ∈ calls, call.receivedAt.ns ≤ t.ns) :
    (total calls).NotAfter t := by
  induction calls using List.reverseRecOn with
  | nil => exact Accumulator.notAfter_zero t
  | append_singleton calls call ih =>
    rw [total_snoc]
    exact (ih fun other hother => h other (List.mem_append_left _ hother)).addAt
      (h call (List.mem_append_right _ List.mem_cons_self)) call.report

/-- The call whose report is stored is the last. -/
theorem After.snapshot (hs : After token server calls s) {snapshot : Snapshot F}
    (hget : s.store.get server.id = some snapshot) :
    ∃ before call, calls = before ++ [call] ∧
      snapshot = Store.snapshotOf server call.report call.receivedAt call.sourceIP := by
  rw [hs.stored] at hget
  obtain ⟨call, hlast, rfl⟩ := Option.map_eq_some_iff.mp hget
  obtain ⟨before, rfl⟩ := List.getLast?_eq_some_iff.mp hlast
  exact ⟨before, call, rfl, rfl⟩

/-- **A report that no younger one has preceded is what the accumulator has kept.** -/
theorem After.recorded {call : Call F} (hs : After token server (calls ++ [call]) s)
    (hyoungest : ∀ other ∈ calls, other.receivedAt.ns ≤ call.receivedAt.ns) :
    ∃ bucket, s.history.bucket? (.of server.id call.receivedAt) = some bucket ∧
      bucket.accumulator.LastValues call.report := by
  have hcalls : callsOf server.id (.of server.id call.receivedAt) (calls ++ [call]) =
      callsOf server.id (.of server.id call.receivedAt) calls ++ [call] := by
    rw [callsOf, List.filter_append, List.filter_singleton, beq_self_eq_true]
    rfl
  rcases hs.buckets (.of server.id call.receivedAt) with ⟨_, hnone⟩ | ⟨b, hb, htotal⟩
  · rw [hcalls] at hnone
    exact absurd hnone (List.append_ne_nil_of_right_ne_nil _ (List.cons_ne_nil call []))
  · refine ⟨b, hb, ?_⟩
    rw [htotal, hcalls, total_snoc]
    refine Accumulator.lastValues_addAt (notAfter_total ?_) call.report
    intro other hother
    exact hyoungest other (List.mem_filter.mp hother).1

omit [Float64 F] in
/-- Stamps that never decrease from one call to the next never decrease. -/
theorem pairwise_of_ascends
    (h : ∀ before call after, calls = before ++ call :: after → ∀ previous,
      before.getLast? = some previous → previous.receivedAt.ns ≤ call.receivedAt.ns) :
    calls.Pairwise fun a b => a.receivedAt.ns ≤ b.receivedAt.ns := by
  induction calls using List.reverseRecOn with
  | nil => exact List.Pairwise.nil
  | append_singleton calls call ih =>
    have hsorted := ih fun before other after heq previous hprevious =>
      h before other (after ++ [call]) (by rw [heq, List.append_assoc, List.cons_append]) previous
        hprevious
    refine List.pairwise_append.mpr ⟨hsorted, List.pairwise_singleton _ _, ?_⟩
    intro other hother last hlast
    rw [List.mem_singleton.mp hlast]
    rcases List.eq_nil_or_concat calls with rfl | ⟨before, previous, hconcat⟩
    · cases hother
    · rw [List.concat_eq_append] at hconcat
      subst hconcat
      have hle := h (before ++ [previous]) call [] rfl previous List.getLast?_concat
      rcases List.mem_append.mp hother with hother | hother
      · exact Int.le_trans ((List.pairwise_append.mp hsorted).2.2 other hother previous
          List.mem_cons_self) hle
      · rw [List.mem_singleton.mp hother]
        exact hle

/-- **The live snapshot is the most recently received report exactly when the calls take the lock in
the order of their stamps.** The stamp is taken before the lock, so two reports of one token may be
stored against the order in which they came; the store keeps the one that was stored last. -/
theorem mostRecent_iff (tables : Tables F)
    (hauth : Service.authenticateToken tables.registry token false = .ok server)
    (htokens : ∀ call ∈ calls, call.token = token) :
    MostRecent tables server.id calls ↔
      calls.Pairwise fun a b => a.receivedAt.ns ≤ b.receivedAt.ns := by
  have hafter : ∀ calls : List (Call F), (∀ call ∈ calls, call.token = token) →
      After token server calls (ingested tables calls) := fun calls => after_ingested hauth
  have hbefore : ∀ {before after : List (Call F)} {call : Call F},
      (∀ other ∈ before ++ call :: after, other.token = token) →
        ∀ other ∈ before, other.token = token := fun htokens other hother =>
    htokens other (List.mem_append_left _ hother)
  have hthrough : ∀ {before after : List (Call F)} {call : Call F},
      (∀ other ∈ before ++ call :: after, other.token = token) →
        ∀ other ∈ before ++ [call], other.token = token := by
    intro before after call htokens other hother
    apply htokens other
    rw [List.append_cons]
    exact List.mem_append_left _ hother
  have hstored : ∀ {calls : List (Call F)}, (∀ call ∈ calls, call.token = token) →
      ∀ call, calls.getLast? = some call → (ingested tables calls).store.get server.id =
        some (Store.snapshotOf server call.report call.receivedAt call.sourceIP) := by
    intro calls htokens call hlast
    rw [(hafter calls htokens).stored, hlast, Option.map_some]
  constructor
  · intro h
    apply pairwise_of_ascends
    rintro before call after rfl previous hprevious
    exact h.ascends before call after rfl _ _ (hstored (hbefore htokens) previous hprevious)
      (hstored (hthrough htokens) call List.getLast?_concat)
  · intro hsorted
    refine ⟨?_, ?_, ?_⟩
    · rintro before call after rfl old new hold hnew
      obtain ⟨earlier, previous, rfl, rfl⟩ := (hafter before (hbefore htokens)).snapshot hold
      obtain ⟨_, last, heq, rfl⟩ := (hafter _ (hthrough htokens)).snapshot hnew
      cases (List.append_inj' heq rfl).2
      exact (List.pairwise_append.mp hsorted).2.2 previous
        (List.mem_append_right _ List.mem_cons_self) call List.mem_cons_self
    · intro snapshot hget
      obtain ⟨before, call, rfl, rfl⟩ := (hafter calls htokens).snapshot hget
      refine ⟨call, List.mem_append_right _ List.mem_cons_self, rfl, rfl, ?_⟩
      intro other hother
      rcases List.mem_append.mp hother with hother | hother
      · exact (List.pairwise_append.mp hsorted).2.2 other hother call List.mem_cons_self
      · rw [List.mem_singleton.mp hother]
    · intro snapshot hget
      obtain ⟨before, call, rfl, rfl⟩ := (hafter calls htokens).snapshot hget
      exact (hafter _ htokens).recorded fun other hother =>
        (List.pairwise_append.mp hsorted).2.2 other hother call List.mem_cons_self

end Runs

/-- A report of the server of `oneServer`, stamped `t` seconds after the epoch. -/
def stamped (t : Int) : Call Exact := ⟨0, .ofCPU (.fin 0), .ofUnix t, ""⟩

/-- Three reports that take the lock in the order of their stamps. -/
theorem stamped_mostRecent : MostRecent .oneServer 1 [stamped 10, stamped 20, stamped 30] :=
  (@mostRecent_iff Exact _ 0 ⟨1, "web", true⟩ _ .oneServer rfl (by decide)).mpr (by decide)

/-- **A report overtaken on its way to the lock replaces a younger one.** -/
theorem overtaken_not_mostRecent : ¬ MostRecent .oneServer 1 [stamped 20, stamped 10] := by
  intro h
  have hascends := h.ascends [stamped 20] (stamped 10) [] rfl
    ⟨1, "web", true, .ofUnix 20, "", .ofCPU (.fin 0)⟩
    ⟨1, "web", true, .ofUnix 10, "", .ofCPU (.fin 0)⟩ (by decide +kernel) (by decide +kernel)
  exact absurd hascends (by decide)

end TinyProbe.Live.Coordinator
