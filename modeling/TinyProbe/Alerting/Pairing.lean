import TinyProbe.Alerting.Service

/-!
# Recoveries and the alerts they close

A recovered event is paired when a firing event of the same rule, server and start stands before it
in the rule's log with no recovery for another server in between. The state machine remembers
neither the server nor the alert it opened: the event gets the server of the snapshot that closes
the episode, so an edit that moves a firing rule to another server unpairs its recovery
(`moved_unpaired`).

Runs that never move a rule while it is firing, or while a call still holds a copy of it, keep every
recovery paired (`paired_of_unmoved`). The invariant adds two facts to it: a firing rule has an
unclosed firing event for the server it now watches, and the copies a call holds are for the server
the rule now watches.
-/

namespace TinyProbe.Alerting.Pairing

open TinyProbe.Run Service

variable {F : Type}

/-- A firing event of `log` that `e` may close, with no recovery for another server after it. -/
def Opened (log : List (Event F)) (e : Event F) : Prop :=
  ∃ pre f mid, log = pre ++ f :: mid ∧ f.status = .firing ∧ f.ruleID = e.ruleID ∧
    f.serverID = e.serverID ∧ f.startedAt = e.startedAt ∧
    ∀ g ∈ mid, g.status = .recovered → g.serverID = e.serverID

/-- Every recovered event closes an alert that was opened for its server. -/
def Paired (log : List (Event F)) : Prop :=
  ∀ pre e post, log = pre ++ e :: post → e.status = .recovered → Opened pre e

/-! ## Logs -/

section Logs

variable {log : List (Event F)} {e : Event F}

private theorem paired_nil : Paired ([] : List (Event F)) := fun _ _ _ h => by
  simp only [List.nil_eq, List.append_eq_nil_iff, List.cons_ne_nil, and_false] at h

/-- A new event keeps the log paired when, as a recovery, it closes an alert. -/
theorem Paired.snoc (h : Paired log) (he : e.status = .recovered → Opened log e) :
    Paired (log ++ [e]) := by
  intro pre x post hsplit hx
  rcases post.eq_nil_or_concat with rfl | ⟨init, last, rfl⟩
  · obtain ⟨rfl, hlast⟩ := List.append_inj' hsplit rfl
    cases hlast
    exact he hx
  · rw [List.concat_eq_append, ← List.cons_append, ← List.append_assoc] at hsplit
    exact h pre x init (List.append_inj' hsplit rfl).1 hx

/-- An alert of `server` that started at `since` is open: its firing event stands in the log with
no recovery after it. -/
def OpenFor (log : List (Event F)) (ruleID server : Int) (since : Option Time) : Prop :=
  ∃ pre f mid, log = pre ++ f :: mid ∧ f.status = .firing ∧ f.ruleID = ruleID ∧
    f.serverID = server ∧ some f.startedAt = since ∧ ∀ g ∈ mid, g.status ≠ .recovered

variable {ruleID server : Int} {since : Option Time}

/-- An open alert stays open until a recovery. -/
theorem OpenFor.snoc (h : OpenFor log ruleID server since) (he : e.status ≠ .recovered) :
    OpenFor (log ++ [e]) ruleID server since := by
  obtain ⟨pre, f, mid, rfl, hf, hrule, hserver, hsince, hmid⟩ := h
  refine ⟨pre, f, mid ++ [e], by rw [List.append_assoc, List.cons_append], hf, hrule, hserver,
    hsince, fun g hg => ?_⟩
  rcases List.mem_append.mp hg with hg | hg
  · exact hmid g hg
  · rwa [List.mem_singleton.mp hg]

/-- A firing event opens an alert for its server. -/
theorem OpenFor.last (log : List (Event F)) (hf : e.status = .firing) :
    OpenFor (log ++ [e]) e.ruleID e.serverID (some e.startedAt) :=
  ⟨log, e, [], rfl, hf, rfl, rfl, rfl, fun _ h => absurd h List.not_mem_nil⟩

/-- A recovery of an open alert closes it. -/
theorem OpenFor.opened (h : OpenFor log e.ruleID e.serverID (some e.startedAt)) : Opened log e := by
  obtain ⟨pre, f, mid, hlog, hf, hrule, hserver, hsince, hmid⟩ := h
  exact ⟨pre, f, mid, hlog, hf, hrule, hserver, Option.some.inj hsince,
    fun g hg hrec => absurd hrec (hmid g hg)⟩

end Logs

variable [Float64 F]

/-- The step does not move a rule to another server while it is firing, or while the current call
still holds a copy of it. An update that is refused or fails moves nothing. -/
def Unmoved (s : Service F) : Action F → Prop
  | .updateRule _ rule fails _ => Repository.updates s.db rule fails = true →
    ∀ row, s.db.rule? rule.id = some row → row.serverID ≠ rule.serverID →
      s.db.statusOf rule.id ≠ .firing ∧ ∀ p ∈ s.todo, p.2.id ≠ rule.id
  | _ => True

/-- What guarded runs keep of a rule. -/
structure Watches (id : Int) (s : Service F) : Prop where
  paired : Paired (s.db.eventsOf id)
  opened : s.db.statusOf id = .firing → ∃ row, s.db.rule? id = some row ∧
    OpenFor (s.db.eventsOf id) id row.serverID (s.db.stateOf id).firingSince
  copies : ∀ p ∈ s.todo, p.2.id = id → ∃ row, s.db.rule? id = some row ∧
    p.1.snapshot.serverID = row.serverID

/-! ## The step -/

section Step

variable {s : Service F} {a : Action F} {id : Int}

/-- A guarded step leaves a firing rule, or one a call still holds, with the server it watches. -/
theorem server_kept (hok : Unmoved s a) {row : Rule F} (hrow : s.db.rule? id = some row)
    (hbusy : s.db.statusOf id = .firing ∨ ∃ p ∈ s.todo, p.2.id = id) :
    ∃ row', (step s a).db.rule? id = some row' ∧ row'.serverID = row.serverID := by
  rcases rule?_step s a hrow with h | ⟨now, rule, fails, stateFails, rfl, rfl, hupdates, h⟩
  · exact ⟨row, h, rfl⟩
  · refine ⟨_, h, ?_⟩
    by_contra hne
    obtain ⟨hcalm, hcopies⟩ := hok hupdates row hrow (Ne.symm hne)
    rcases hbusy with hfiring | ⟨p, hp, hid⟩
    · exact hcalm hfiring
    · exact hcopies p hp hid

/-- The copies that a call holds are of the server whose event it evaluates. -/
theorem copies_step (hok : Unmoved s a) (h : Watches id s) :
    ∀ p ∈ (step s a).todo, p.2.id = id → ∃ row, (step s a).db.rule? id = some row ∧
      p.1.snapshot.serverID = row.serverID := fun p hp hid => by
  rcases todo_step s a with hsuffix | ⟨_, hdb, event, listFails, _, htodo⟩
  · have hmem := hsuffix.subset hp
    obtain ⟨row, hrow, hserver⟩ := h.copies p hmem hid
    obtain ⟨row', hrow', hserver'⟩ := server_kept hok hrow (Or.inr ⟨p, hmem, hid⟩)
    exact ⟨row', hrow', hserver.trans hserver'.symm⟩
  · rw [htodo] at hp
    obtain ⟨rule, hrule, rfl⟩ := List.mem_map.mp hp
    obtain ⟨hrow, hserver, _⟩ := mem_listedRules hrule
    exact ⟨rule, by rw [hdb, ← hid]; exact hrow, hserver.symm⟩

/-- A turn of the rule appends nothing, a firing event for the server it watches, or the recovery
that closes its open alert. -/
theorem watches_advanced {event : Live.Event F} {rule row : Rule F} (turn : Turn) {db : Database F}
    (hserver : event.snapshot.serverID = row.serverID)
    (hpaired : Paired (db.eventsOf rule.id))
    (hopened : db.statusOf rule.id = .firing →
      OpenFor (db.eventsOf rule.id) rule.id row.serverID (db.stateOf rule.id).firingSince) :
    Paired ((advanced event rule turn db).eventsOf rule.id) ∧
      ((advanced event rule turn db).statusOf rule.id = .firing →
        OpenFor ((advanced event rule turn db).eventsOf rule.id) rule.id row.serverID
          ((advanced event rule turn db).stateOf rule.id).firingSince) := by
  rw [eventsOf_advanced, statusOf_advanced, stateOf_advanced]
  by_cases hs : db.statusOf rule.id = .firing
  · obtain hopen := hopened hs
    have hsince : (db.stateOf rule.id).firingSince.isSome = true := by
      obtain ⟨_, _, _, _, _, _, _, hsince, _⟩ := hopen
      rw [← hsince, Option.isSome_some]
    obtain ⟨since, hsince⟩ := Option.isSome_iff_exists.mp hsince
    rw [hsince] at hopen
    rcases resultOf_firing event turn.now hs with
      ⟨_, hst, hfs, _⟩ | ⟨_, hst, hfs, hn⟩
    · rw [hsince, Option.getD_some] at hfs
      rw [hfs]
      cases hn : (resultOf event rule turn.now db).notify with
      | false =>
        rw [storedFor_none hn, Option.toList_none, List.append_nil]
        exact ⟨hpaired, fun _ => hopen⟩
      | true =>
        rw [storedFor_some hn, Option.toList_some]
        have hne : (notified event rule turn db).status ≠ .recovered := by
          rw [notified_status, hst]
          exact nofun
        exact ⟨hpaired.snoc fun hrec => absurd hrec hne, fun _ => hopen.snoc hne⟩
    · rw [storedFor_some hn, Option.toList_some]
      refine ⟨hpaired.snoc fun _ => OpenFor.opened ?_, fun hf => ?_⟩
      · rw [notified_ruleID, notified_serverID, notified_startedAt (hfs.trans hsince), hserver]
        exact hopen
      · rw [hst] at hf
        cases hf
  · rcases resultOf_not_firing event turn.now hs with
      ⟨hn, hst, hfs, _, _⟩ | ⟨hn, hst⟩
    · rw [storedFor_some hn, Option.toList_some, hfs]
      have hf : (notified event rule turn db).status = .firing := hst
      refine ⟨hpaired.snoc fun hrec => ?_, fun _ => ?_⟩
      · rw [hf] at hrec
        cases hrec
      · have hlast := OpenFor.last (db.eventsOf rule.id) hf
        rwa [notified_ruleID, notified_serverID, notified_startedAt hfs, hserver] at hlast
    · rw [storedFor_none hn, Option.toList_none, List.append_nil]
      exact ⟨hpaired, fun hf => absurd hf hst⟩

/-- **The step**: what is kept of a rule survives a turn of it, and every step that leaves it alone.
-/
theorem watches_step (hok : Unmoved s a) (h : Watches id s) : Watches id (step s a) := by
  rcases step_cases s a id with ⟨hst, hev⟩ | ⟨event, rule, turn, htakes, rfl, hdb⟩
  · refine ⟨by rw [hev]; exact h.paired, fun hf => ?_, copies_step hok h⟩
    rw [Database.statusOf, hst] at hf
    obtain ⟨row, hrow, hopen⟩ := h.opened hf
    obtain ⟨row', hrow', hserver⟩ := server_kept hok hrow (Or.inl hf)
    exact ⟨row', hrow', by rw [hev, hst, hserver]; exact hopen⟩
  · have hmem : (event, rule) ∈ s.todo := by
      cases a with
      | turn t => exact List.mem_of_head? htakes.2.1
      | _ => exact htakes.elim
    obtain ⟨row, hrow, hserver⟩ := h.copies _ hmem rfl
    have hopened : s.db.statusOf rule.id = .firing → OpenFor (s.db.eventsOf rule.id) rule.id
        row.serverID (s.db.stateOf rule.id).firingSince := fun hf => by
      obtain ⟨row', hrow', hopen⟩ := h.opened hf
      rwa [Option.some.inj (hrow.symm.trans hrow')]
    obtain ⟨hpaired', hopened'⟩ := watches_advanced turn hserver h.paired hopened
    refine ⟨hdb ▸ hpaired', fun hf => ⟨row, ?_, ?_⟩, copies_step hok h⟩
    · rw [hdb, Database.rule?_congr rules_advanced]
      exact hrow
    · rw [hdb] at hf ⊢
      exact hopened' hf

end Step

omit [Float64 F] in
private theorem watches_initial (id : Int) : Watches id (initial : Service F) where
  paired := paired_nil
  opened := fun h => by
    rw [Database.statusOf, initial, Database.stateOf_empty] at h
    cases h
  copies := fun _ h => absurd h List.not_mem_nil

/-! ## The runs that pair every recovery -/

/-- **Runs that do not move firing or evaluated rules keep every recovery paired**: in every state
such a run reaches, each persisted recovered event closes an alert that was opened for its server. A
rule that is moved takes its state along, and recovers for a server that it has not fired for. -/
theorem paired_of_unmoved (as : List (Action F)) (h : Guarded step Unmoved initial as) (id : Int) :
    Paired ((run step initial as).db.eventsOf id) :=
  (h.invariant (fun s _ hok (hw : Watches id s) => watches_step hok hw) (watches_initial id)).paired

/-- The offline alert of server 1 opens and closes, and then the rule is moved to server 2. -/
def movedLater : List (Action Exact) :=
  [.createRule .zero (ruleOn 1 .offline (.fin 0) 0) false,
    startOn 1 false (.fin 0), turnAt 1, startOn 1 true (.fin 0), turnAt 2,
    .updateRule .zero (ruleOn 2 .offline (.fin 0) 0) false false]

/-- A rule that is moved after its alert has ended pairs its one recovery. -/
theorem movedLater_paired :
    ((run step initial movedLater).db.eventsOf 1).map (fun e => (e.status, e.serverID)) =
        [(.firing, 1), (.recovered, 1)] ∧
      Paired ((run step initial movedLater).db.eventsOf 1) :=
  ⟨by decide +kernel,
    paired_of_unmoved movedLater ⟨trivial, trivial, trivial, trivial, trivial,
      fun _ _ _ _ => ⟨by decide +kernel, by decide +kernel⟩, trivial⟩ 1⟩

/-- The rule is moved to server 2 while its alert for server 1 is open. -/
def moved : List (Action Exact) :=
  [.createRule .zero (ruleOn 1 .offline (.fin 0) 0) false,
    startOn 1 false (.fin 0), turnAt 1,
    .updateRule .zero (ruleOn 2 .offline (.fin 0) 0) false false,
    startOn 2 true (.fin 0), turnAt 2]

/-- The recovery names server 2, for which no alert was opened. -/
theorem moved_unpaired : ¬ Paired ((run step initial moved).db.eventsOf 1) := by
  have hlog : ((run step initial moved).db.eventsOf 1).map (fun e => (e.status, e.serverID)) =
      [(.firing, 1), (.recovered, 2)] := by decide +kernel
  intro hpaired
  generalize (run step initial moved).db.eventsOf 1 = log at hlog hpaired
  obtain ⟨f, rest, rfl, hf, hrest⟩ := List.map_eq_cons_iff.mp hlog
  obtain ⟨e, rest, rfl, he, hnil⟩ := List.map_eq_cons_iff.mp hrest
  obtain ⟨hf, hfs⟩ := Prod.mk.inj hf
  obtain ⟨he, hes⟩ := Prod.mk.inj he
  obtain ⟨pre, x, mid, hpre, _, _, hserver, _⟩ := hpaired [f] e rest rfl he
  have hx : x ∈ [f] := hpre ▸ List.mem_append_right pre List.mem_cons_self
  rw [List.mem_singleton.mp hx] at hserver
  rw [hfs, hes] at hserver
  cases hserver

end TinyProbe.Alerting.Pairing
