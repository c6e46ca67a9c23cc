import TinyProbe.Alerting.Attempts

/-!
# What is recorded of the attempts

Whatever the order of the steps, what the network answers and which rows can be stored: a call of
`dispatch` returns the course of its job, and it ends as it does for a reason (`Ended`). The rows of
an event are of one course, so what `ListAttempts` shows of an event is in the order in which the
attempts were made, with a success at most as the last of them (`attempts_recorded`).

The invariants are those of one caller: it has its call for itself (`Owned`), and it stands where its
attempts have led it (`Standing`). That an event has one call comes from the queue (`Queued`).
-/

namespace TinyProbe.Alerting

open TinyProbe.Run Db

variable {D F : Type}

namespace Deliveries

/-! ## What is recorded -/

/-- A caller has a call of `dispatch` for itself. -/
structure Owned (s : Deliveries D F) (c : Caller) (job : DeliveryJob F) : Prop where
  call : s.calls[s.number c]? = some job
  collected : s.attemptsOf (s.number c) = s.collected c
  unreturned : ∀ r ∈ s.returned, r.call ≠ s.number c
  alone : ∀ c', c' ≠ c → (s.place c').job? ≠ none → s.number c' ≠ s.number c

/-- An outcome ends as it does for a reason. -/
structure Ended (s : Deliveries D F) (r : Return) : Prop where
  call : r.call < s.calls.length
  attempts : r.outcome.attempts = s.attemptsOf r.call
  success : r.outcome.success = r.outcome.attempts.getLast?.any Attempt.success
  reason : match r.ending with
    | .delivered => r.outcome.success = true
    | .exhausted => r.outcome.success = false ∧ r.outcome.attempts.length = delays.length
    | .interrupted => r.outcome.success = false ∧ r.outcome.attempts.length < delays.length
    | .unrendered => r.outcome.success = false ∧ r.outcome.attempts.length = 1

structure Recorded [DecidableEq D] (s : Deliveries D F) : Prop where
  course : ∀ k job, s.calls[k]? = some job → Course job (s.attemptsOf k)
  log : ∀ entry ∈ s.log, entry.1 < s.calls.length
  owned : ∀ c job, (s.place c).job? = some job → s.Owned c job
  returned : ∀ r ∈ s.returned, s.Ended r
  once : (s.returned.map Return.call).Nodup
  stored : s.tables.attempts.Sublist (s.former ++ s.log.map Prod.snd)
  sound : s.tables.Sound

/-- Where a caller is in the loop over `delays`. -/
def Standing (attempts : List Attempt) (now : Time) : Worker F → Prop
  | .sending _ index => index = attempts.length ∧ index < delays.length ∧ Due attempts now
  | .sleeping _ index wakesAt =>
    index = attempts.length ∧ index < delays.length ∧ Due attempts wakesAt
  | .idle | .stopped => True

/-- A caller, and no other, goes elsewhere. -/
structure Moved (s s' : Deliveries D F) (c : Caller) (place : Worker F) : Prop where
  rest : ∃ dispatcher testers, s' = { s with dispatcher, testers }
  place : s'.place = Function.update s.place c place

section Records

variable [DecidableEq D] {s s' : Deliveries D F} {c : Caller} {job : DeliveryJob F} {k : Nat}
  {a : Attempt}

/-- An attempt is stored as it is, but for its id, or not at all. -/
theorem recordAttempt_cases {t : Tables D F} (h : t.Sound) {now : Time} {attempt : Attempt}
    (hnow : attempt.sentAt = now) (fails : Bool) :
    recordAttempt t now attempt fails = (none, t) ∨
      ∃ id t', recordAttempt t now attempt fails = (some { attempt with id }, t') ∧ t'.Sound ∧
        t'.attempts = t.attempts ++ [{ attempt with id }] := by
  have hsent : (if attempt.sentAt = .zero then now else attempt.sentAt) = attempt.sentAt := by
    rw [hnow]
    exact ite_self _
  unfold recordAttempt
  split
  next => exact Or.inl rfl
  next =>
    dsimp only
    rw [hsent]
    cases hexec : (if fails then none else t.exec (.insertAttempt attempt)) with
    | none => exact Or.inl rfl
    | some t' =>
      refine Or.inr ⟨_, t', rfl, ?_⟩
      cases fails with
      | true => cases hexec
      | false =>
        rw [if_neg Bool.false_ne_true] at hexec
        refine ⟨h.change (Tables.exec_change hexec), ?_⟩
        rw [Tables.exec_insertAttempt h] at hexec
        split at hexec
        next =>
          cases hexec
          simp [Tables.attempts, Row.attempt?, Function.update_self]
        next => cases hexec

/-- **What `record` does.** -/
theorem record_cases (h : s.Recorded) (c : Caller) (job : DeliveryJob F) (number : Nat)
    (result : AttemptResult) (fails : Bool) :
    ∃ a tables, s.record c job number result fails =
        { s with tables, collected := Function.update s.collected c (s.collected c ++ [a])
                 log := s.log ++ [(s.number c, a)] } ∧
      (∃ id, a = { s.attemptOf job number result with id }) ∧ tables.Sound ∧
      tables.attempts.Sublist (s.former ++ (s.log ++ [(s.number c, a)]).map Prod.snd) := by
  unfold record
  dsimp only
  have hsent : (s.attemptOf job number result).sentAt = s.dispatcher.now := rfl
  rcases recordAttempt_cases h.sound hsent fails with heq | ⟨id, t', heq, hsound, hattempts⟩
  · rw [heq]
    refine ⟨_, _, rfl, ⟨0, rfl⟩, h.sound, ?_⟩
    rw [List.map_append, ← List.append_assoc]
    exact h.stored.trans (List.sublist_append_left _ _)
  · rw [heq]
    refine ⟨_, _, rfl, ⟨id, rfl⟩, hsound, ?_⟩
    rw [hattempts, List.map_append, ← List.append_assoc]
    exact h.stored.append (List.Sublist.refl _)

omit [DecidableEq D] in
/-- An attempt that is logged is the last one of its call, and none of another. -/
private theorem attemptsOf_snoc (h : s'.log = s.log ++ [(k, a)]) (k' : Nat) :
    s'.attemptsOf k' = if k' = k then s.attemptsOf k' ++ [a] else s.attemptsOf k' := by
  unfold attemptsOf
  rw [h, List.filter_append, List.map_append]
  split
  next heq => simp [heq]
  next hne => simp [Ne.symm hne]

omit [DecidableEq D] in
/-- A call that is yet to come has no attempts. -/
private theorem attemptsOf_none (h : ∀ entry ∈ s.log, entry.1 < k) : s.attemptsOf k = [] := by
  unfold attemptsOf
  rw [List.map_eq_nil_iff, List.filter_eq_nil_iff]
  intro entry hentry
  have := h entry hentry
  simp only [beq_iff_eq]
  omega

/-- **An attempt is recorded.** -/
theorem Recorded.record (h : s.Recorded) (howned : s.Owned c job) (hdue : Due (s.collected c)
    s.dispatcher.now) (hlength : (s.collected c).length < delays.length)
    (result : AttemptResult) (fails : Bool) {number : Nat}
    (hnumber : number = (s.collected c).length + 1) :
    (s.record c job number result fails).Recorded ∧
      (s.record c job number result fails).Owned c job ∧
      ∃ a, (s.record c job number result fails).collected =
          Function.update s.collected c (s.collected c ++ [a]) ∧
        a.success = result.success ∧ a.sentAt = s.dispatcher.now := by
  obtain ⟨a, tables, heq, ⟨id, ha⟩, hsound, hstored⟩ := record_cases h c job number result fails
  rw [heq]
  have hattempts : ∀ k, attemptsOf { s with
        tables, collected := Function.update s.collected c (s.collected c ++ [a])
        log := s.log ++ [(s.number c, a)] } k =
      if k = s.number c then s.attemptsOf k ++ [a] else s.attemptsOf k :=
    fun k => attemptsOf_snoc rfl k
  have hcollected : Function.update s.collected c (s.collected c ++ [a]) c = s.collected c ++ [a] :=
    Function.update_self _ _ _
  have hsuccess : a.success = result.success := by rw [ha]; rfl
  have hsent : a.sentAt = s.dispatcher.now := by rw [ha]; rfl
  have hcourse : Course job (s.collected c ++ [a]) := by
    refine (howned.collected ▸ h.course _ job howned.call).snoc hdue hlength ?_ ?_ hsent
    · rw [ha]
      show (number : Int) = _
      rw [hnumber]
      exact Int.natCast_succ _
    · rw [ha]
      exact ⟨rfl, rfl⟩
  refine ⟨⟨fun k job' hk => ?_, ?_, fun c' job' hjob => ?_, fun r hr => ?_, h.once, hstored, hsound⟩,
    ?_, a, rfl, hsuccess, hsent⟩
  · rw [hattempts]
    split
    next heq =>
      rw [heq] at hk ⊢
      cases howned.call.symm.trans hk
      rwa [howned.collected]
    next => exact h.course k job' hk
  · refine List.forall_mem_append.mpr ⟨h.log, List.forall_mem_singleton.mpr ?_⟩
    exact (List.getElem?_eq_some_iff.mp howned.call).1
  · have howned' := h.owned c' job' hjob
    by_cases hc : c' = c
    · subst hc
      cases howned.call.symm.trans howned'.call
      refine ⟨howned.call, ?_, howned.unreturned, howned.alone⟩
      rw [hattempts, if_pos rfl, howned.collected]
      exact hcollected.symm
    · refine ⟨howned'.call, ?_, howned'.unreturned, howned'.alone⟩
      have hne := howned.alone c' hc (Option.ne_none_iff_exists'.mpr ⟨job', hjob⟩)
      rw [hattempts, if_neg hne, howned'.collected]
      exact (Function.update_of_ne hc _ _).symm
  · have hended := h.returned r hr
    refine ⟨hended.call, ?_, hended.success, hended.reason⟩
    rw [hattempts, if_neg (howned.unreturned r hr)]
    exact hended.attempts
  · refine ⟨howned.call, ?_, howned.unreturned, howned.alone⟩
    rw [hattempts, if_pos rfl, howned.collected]
    exact hcollected.symm

/-- **A caller moves on**, with a call of its own if it has one. -/
theorem Recorded.move (h : s.Recorded) {place : Worker F} (hmoved : Moved s s' c place)
    (hplace : ∀ job, place.job? = some job → s.Owned c job) :
    s'.Recorded ∧ ∀ job, s.Owned c job → s'.Owned c job := by
  obtain ⟨⟨dispatcher, testers, rfl⟩, hplaces⟩ := hmoved
  have hother : ∀ c', c' ≠ c → { s with dispatcher, testers }.place c' = s.place c' := fun c' hc => by
    rw [hplaces, Function.update_of_ne hc]
  have hself : ∀ job, s.Owned c job → { s with dispatcher, testers }.Owned c job := fun job howned =>
    ⟨howned.call, howned.collected, howned.unreturned, fun c' hc hjob =>
      howned.alone c' hc (hother c' hc ▸ hjob)⟩
  refine ⟨⟨h.course, h.log, fun c' job hjob => ?_, fun r hr => ?_, h.once, h.stored, h.sound⟩, hself⟩
  · by_cases hc : c' = c
    · subst hc
      rw [hplaces, Function.update_self] at hjob
      exact hself job (hplace job hjob)
    · rw [hother c' hc] at hjob
      have howned := h.owned c' job hjob
      have hsome : (s.place c').job? ≠ none := Option.ne_none_iff_exists'.mpr ⟨job, hjob⟩
      refine ⟨howned.call, howned.collected, howned.unreturned, fun c'' hne hjob'' => ?_⟩
      by_cases heq : c'' = c
      · subst heq
        rw [hplaces, Function.update_self] at hjob''
        obtain ⟨job'', hjob''⟩ := Option.ne_none_iff_exists'.mp hjob''
        exact ((hplace job'' hjob'').alone c' hc hsome).symm
      · exact howned.alone c'' hne (hother c'' heq ▸ hjob'')
  · have hended := h.returned r hr
    exact ⟨hended.call, hended.attempts, hended.success, hended.reason⟩

/-- **A call begins.** -/
theorem Recorded.enter (h : s.Recorded) (hidle : (s.place c).job? = none) (job : DeliveryJob F) :
    (s.enter c job).Recorded ∧ (s.enter c job).Owned c job := by
  have hlength : (s.enter c job).calls.length = s.calls.length + 1 := List.length_append
  have hnumber : (s.enter c job).number c = s.calls.length := Function.update_self _ _ _
  have hcollected : (s.enter c job).collected c = [] := Function.update_self _ _ _
  have hothers : ∀ c', (s.place c').job? ≠ none → c' ≠ c := fun c' hjob heq => hjob (heq ▸ hidle)
  have hnone : s.attemptsOf s.calls.length = [] := attemptsOf_none h.log
  have hcalls : ∀ k job', s.calls[k]? = some job' → (s.enter c job).calls[k]? = some job' :=
    fun k job' hk => (List.getElem?_append_left (List.getElem?_eq_some_iff.mp hk).1).trans hk
  have hlt : ∀ c', (s.place c').job? ≠ none → s.number c' < s.calls.length := fun c' hjob => by
    obtain ⟨job', hjob'⟩ := Option.ne_none_iff_exists'.mp hjob
    exact (List.getElem?_eq_some_iff.mp (h.owned c' job' hjob').call).1
  refine ⟨⟨fun k job' hk => ?_, fun entry hentry => ?_, fun c' job' hjob => ?_, fun r hr => ?_, h.once,
    h.stored, h.sound⟩, ?_, ?_, fun r hr => ?_, fun c' hc hjob => ?_⟩
  · rcases Nat.lt_or_ge k s.calls.length with hk' | hk'
    · rw [Deliveries.enter, List.getElem?_append_left hk'] at hk
      exact h.course k job' hk
    · have hkey : k = s.calls.length := by
        have := (List.getElem?_eq_some_iff.mp hk).1
        omega
      subst hkey
      show Course job' (s.attemptsOf _)
      rw [hnone]
      exact course_nil job'
  · rw [hlength]
    exact Nat.lt_succ_of_lt (h.log entry hentry)
  · have hjob' : (s.place c').job? ≠ none := Option.ne_none_iff_exists'.mpr ⟨job', hjob⟩
    have howned := h.owned c' job' hjob
    have hc := hothers c' hjob'
    have hnumber' : (s.enter c job).number c' = s.number c' := Function.update_of_ne hc _ _
    refine ⟨?_, ?_, ?_, fun c'' hne hjob'' => ?_⟩
    · rw [hnumber']
      exact hcalls _ _ howned.call
    · rw [hnumber']
      exact howned.collected.trans (Function.update_of_ne hc _ _).symm
    · rw [hnumber']
      exact howned.unreturned
    · rw [hnumber', show (s.enter c job).number c'' = s.number c'' from
        Function.update_of_ne (hothers c'' hjob'') _ _]
      exact howned.alone c'' hne hjob''
  · have hended := h.returned r hr
    exact ⟨hlength ▸ Nat.lt_succ_of_lt hended.call, hended.attempts, hended.success, hended.reason⟩
  · rw [hnumber]
    exact List.getElem?_concat_length
  · rw [hnumber, hcollected]
    exact hnone
  · rw [hnumber]
    exact Nat.ne_of_lt (h.returned r hr).call
  · rw [hnumber, show (s.enter c job).number c' = s.number c' from Function.update_of_ne hc _ _]
    exact Nat.ne_of_lt (hlt c' hjob)

/-- **A call returns.** -/
theorem Recorded.finish (h : s.Recorded) (howned : s.Owned c job)
    (hidle : (s.place c).job? = none) {ending : Ending}
    (hsuccess : decide (ending = .delivered) = (s.collected c).getLast?.any Attempt.success)
    (hreason : match ending with
      | .delivered => True
      | .exhausted => (s.collected c).length = delays.length
      | .interrupted => (s.collected c).length < delays.length
      | .unrendered => (s.collected c).length = 1) : (s.finish c ending).Recorded := by
  refine ⟨h.course, h.log, fun c' job' hjob => ?_, List.forall_mem_append.mpr ⟨fun r hr => ?_,
    List.forall_mem_singleton.mpr ?_⟩, ?_, h.stored, h.sound⟩
  · have howned' := h.owned c' job' hjob
    have hjob' : (s.place c').job? ≠ none := Option.ne_none_iff_exists'.mpr ⟨job', hjob⟩
    have hc : c' ≠ c := fun heq => hjob' (heq ▸ hidle)
    refine ⟨howned'.call, howned'.collected, ?_, howned'.alone⟩
    exact List.forall_mem_append.mpr ⟨howned'.unreturned,
      List.forall_mem_singleton.mpr (howned.alone c' hc hjob').symm⟩
  · have hended := h.returned r hr
    exact ⟨hended.call, hended.attempts, hended.success, hended.reason⟩
  · refine ⟨(List.getElem?_eq_some_iff.mp howned.call).1, howned.collected.symm, hsuccess, ?_⟩
    cases ending with
    | delivered => rfl
    | exhausted => exact ⟨rfl, hreason⟩
    | interrupted => exact ⟨rfl, hreason⟩
    | unrendered => exact ⟨rfl, hreason⟩
  · rw [Deliveries.finish, List.map_append]
    refine List.nodup_append.mpr ⟨h.once, List.nodup_singleton _, ?_⟩
    rintro k hk k' hk' rfl
    obtain ⟨r, hr, hcall⟩ := List.mem_map.mp hk
    rw [List.mem_singleton.mp hk'] at hcall
    exact howned.unreturned r hr hcall

/-! ### Steps -/

/-- Everything is recorded, and every caller stands where its attempts have led it. -/
structure Logged (s : Deliveries D F) : Prop where
  recorded : s.Recorded
  standing : ∀ c, Standing (s.collected c) s.dispatcher.now (s.place c)

omit [DecidableEq D] in
/-- A place that holds no job asks nothing of the attempts. -/
private theorem standing_none {attempts : List Attempt} {now : Time} {place : Worker F}
    (h : place.job? = none) : Standing attempts now place := by
  cases place with
  | idle => trivial
  | stopped => trivial
  | sending job index => cases h
  | sleeping job index wakesAt => cases h

/-- The head of the loop over `delays`. -/
theorem standing_attempting {attempts : List Attempt} {now : Time}
    (hfailed : ∀ a ∈ attempts, a.success = false)
    (hsent : ∀ a, attempts.getLast? = some a → a.sentAt = now) :
    Standing attempts now (Worker.attempting job attempts.length now) := by
  unfold Worker.attempting
  split
  next => trivial
  next delay hdelay =>
    have hlength := (List.getElem?_eq_some_iff.mp hdelay).1
    split
    next hpos =>
      refine ⟨rfl, hlength, hfailed, fun a delay' ha hdelay' => ?_⟩
      cases hdelay.symm.trans hdelay'
      rw [hsent a ha]
    next hpos =>
      refine ⟨rfl, hlength, hfailed, fun a delay' ha hdelay' => ?_⟩
      cases hdelay.symm.trans hdelay'
      rw [hsent a ha]
      omega

omit [DecidableEq D] in
/-- What stands of a courier at its place still stands later. -/
theorem Standing.mono {attempts : List Attempt} {now now' : Time} {place : Worker F}
    (h : Standing attempts now place) (hle : now.ns ≤ now'.ns) : Standing attempts now' place := by
  cases place with
  | idle => trivial
  | stopped => trivial
  | sending job index => exact ⟨h.1, h.2.1, h.2.2.mono hle⟩
  | sleeping job index wakesAt => exact h

omit [DecidableEq D] in
/-- A step of the dispatcher that changes one worker moves that courier and no other. -/
private theorem moved_worker {d : Dispatcher F} {w : Fin deliveryWorkerCount} {place : Worker F}
    (hworkers : d.workers = Function.update s.dispatcher.workers w place) :
    Moved s { s with dispatcher := d } (.inl w) place where
  rest := ⟨_, _, rfl⟩
  place := by
    funext c
    cases c with
    | inl v =>
      show d.workers v = _
      rw [hworkers]
      by_cases hv : v = w
      · rw [hv, Function.update_self, Function.update_self]
      · rw [Function.update_of_ne hv, Function.update_of_ne (fun h => hv (Sum.inl.inj h))]
        rfl
    | inr n =>
      rw [Function.update_of_ne Sum.inr_ne_inl]
      rfl

omit [DecidableEq D] in
/-- A test that gets on moves that courier and no other. -/
private theorem moved_tester (s : Deliveries D F) (n : Nat) (place : Worker F) :
    Moved s { s with testers := Function.update s.testers n place } (.inr n) place where
  rest := ⟨_, _, rfl⟩
  place := by
    funext c
    cases c with
    | inl w =>
      rw [Function.update_of_ne Sum.inl_ne_inr]
      rfl
    | inr m =>
      show Function.update s.testers n place m = _
      by_cases hm : m = n
      · rw [hm, Function.update_self, Function.update_self]
      · rw [Function.update_of_ne hm, Function.update_of_ne (fun h => hm (Sum.inr.inj h))]
        rfl

/-- The workers after a step of one of them. -/
theorem workers_take {d : Dispatcher F} {w : Fin deliveryWorkerCount} {job : DeliveryJob F}
    {rest : List (DeliveryJob F)} (hidle : d.workers w = .idle) (hqueue : d.queue = job :: rest)
    (renders : Bool) : (d.step (.take w renders)).workers =
      Function.update d.workers w (if renders then .attempting job 0 d.now else .idle) ∧
      (d.step (.take w renders)).now = d.now := by
  simp only [Dispatcher.step, hidle, hqueue]
  exact ⟨rfl, rfl⟩

/-- An attempt puts the worker where `deliver` goes on after the result, and takes no time. -/
private theorem workers_attempt {d : Dispatcher F} {w : Fin deliveryWorkerCount}
    {job : DeliveryJob F}
    {index : Nat} (hworker : d.workers w = .sending job index) (result : AttemptResult) :
    (d.step (.attempt w result)).workers =
      Function.update d.workers w (after job index result d.now) ∧
      (d.step (.attempt w result)).now = d.now := by
  unfold after
  simp only [Dispatcher.step, hworker]
  split <;> exact ⟨rfl, rfl⟩

/-- A sleep that is over puts the worker back to sending. -/
private theorem workers_wake {d : Dispatcher F} {w : Fin deliveryWorkerCount} {job : DeliveryJob F}
    {index : Nat} {wakesAt : Time} (hworker : d.workers w = .sleeping job index wakesAt)
    (htime : wakesAt.ns ≤ d.now.ns) : (d.step (.wake w)).workers =
      Function.update d.workers w (.sending job index) ∧ (d.step (.wake w)).now = d.now := by
  simp only [Dispatcher.step, hworker, if_pos htime]
  exact ⟨rfl, rfl⟩

/-- A context that is done ends the sleep, and with it the delivery. -/
private theorem workers_interrupt {d : Dispatcher F} {w : Fin deliveryWorkerCount}
    {job : DeliveryJob F}
    {index : Nat} {wakesAt : Time} (hworker : d.workers w = .sleeping job index wakesAt)
    (hcancelled : d.cancelled = true) : (d.step (.interrupt w)).workers =
      Function.update d.workers w .idle ∧ (d.step (.interrupt w)).now = d.now := by
  simp only [Dispatcher.step, hworker, hcancelled]
  exact ⟨rfl, rfl⟩

/-- `exit` stops a worker or leaves it where it is, and takes no time. -/
private theorem workers_exit (d : Dispatcher F) (w : Fin deliveryWorkerCount) :
    (d.step (.exit w)).now = d.now ∧ ∃ place, (d.step (.exit w)).workers =
      Function.update d.workers w place ∧
        (place = d.workers w ∨ place = .stopped) := by
  simp only [Dispatcher.step]
  split
  next => exact ⟨rfl, .stopped, rfl, Or.inr rfl⟩
  next => exact ⟨rfl, d.workers w, (Function.update_eq_self w _).symm, Or.inl rfl⟩

/-- Enqueueing touches no worker. -/
private theorem workers_enqueue (d : Dispatcher F) (job : DeliveryJob F) :
    (d.step (.enqueue job)).workers = d.workers ∧ (d.step (.enqueue job)).now = d.now := by
  simp only [Dispatcher.step, Dispatcher.enqueue]
  split <;> exact ⟨rfl, rfl⟩

omit [DecidableEq D] in
/-- Where a caller goes on by `move`. -/
theorem moved_move {a : Fin deliveryWorkerCount → Dispatcher.Action F} {place : Worker F}
    (hstep : ∀ w, c = .inl w → (s.dispatcher.step (a w)).workers =
      Function.update s.dispatcher.workers w place ∧
        (s.dispatcher.step (a w)).now = s.dispatcher.now) :
    Moved s (s.move c a place) c place ∧ (s.move c a place).dispatcher.now = s.dispatcher.now := by
  cases c with
  | inl w => exact ⟨moved_worker (hstep w rfl).1, (hstep w rfl).2⟩
  | inr n => exact ⟨moved_tester s n place, rfl⟩

/-- After an attempt the worker has the same job or none. -/
private theorem job?_after {index : Nat} {result : AttemptResult} {now : Time} :
    (after job index result now).job? = none ∨ (after job index result now).job? = some job := by
  unfold after
  split
  next => exact Or.inl rfl
  next => exact Dispatcher.job?_attempting job (index + 1) now

/-- A courier moves to a place that its log allows. -/
theorem Logged.move (h : s.Logged) {place : Worker F} (hmoved : Moved s s' c place)
    (hnow : s'.dispatcher.now = s.dispatcher.now)
    (hplace : ∀ job, place.job? = some job → s.Owned c job)
    (hstanding : Standing (s.collected c) s.dispatcher.now place) : s'.Logged := by
  refine ⟨(h.recorded.move hmoved hplace).1, fun c' => ?_⟩
  have hcollected : s'.collected = s.collected := by
    obtain ⟨⟨dispatcher, testers, rfl⟩, -⟩ := hmoved
    rfl
  rw [hmoved.place, hnow, hcollected]
  by_cases hc : c' = c
  · rw [hc, Function.update_self]
    exact hstanding
  · rw [Function.update_of_ne hc]
    exact h.standing c'

/-- An idle courier enters a call of `dispatch`, which has no attempts yet. -/
theorem Logged.enter (h : s.Logged) (hidle : (s.place c).job? = none) (job : DeliveryJob F) :
    (s.enter c job).Logged := by
  refine ⟨(h.recorded.enter hidle job).1, fun c' => ?_⟩
  by_cases hc : c' = c
  · subst hc
    exact standing_none hidle
  · rw [show (s.enter c job).collected c' = s.collected c' from Function.update_of_ne hc _ _]
    exact h.standing c'

/-- A due attempt is logged and stored, unless the row cannot be written. -/
theorem Logged.attempt (h : s.Logged) (howned : s.Owned c job)
    (hdue : Due (s.collected c) s.dispatcher.now) (hlength : (s.collected c).length < delays.length)
    {result : AttemptResult} {fails : Bool} {number : Nat}
    (hnumber : number = (s.collected c).length + 1) {place : Worker F}
    (hmoved : Moved (s.record c job number result fails) s' c place)
    (hnow : s'.dispatcher.now = s.dispatcher.now)
    (hplace : place.job? = none ∨ place.job? = some job)
    (hstanding : ∀ a : Attempt, a.success = result.success → a.sentAt = s.dispatcher.now →
      Standing (s.collected c ++ [a]) s.dispatcher.now place) :
    s'.Logged ∧ s'.Owned c job ∧
      ∃ a, s'.collected c = s.collected c ++ [a] ∧ a.success = result.success := by
  obtain ⟨hrecorded, howned', a, hcollected, hsuccess, hsent⟩ :=
    h.recorded.record howned hdue hlength result fails hnumber
  have hjob : ∀ job', place.job? = some job' → (s.record c job number result fails).Owned c job' := by
    intro job' hjob'
    rcases hplace with hnone | hsome
    · rw [hnone] at hjob'
      cases hjob'
    · cases hsome.symm.trans hjob'
      exact howned'
  obtain ⟨hrecorded', hkept⟩ := hrecorded.move hmoved hjob
  have hplaces := hmoved.place
  have hcollected' : s'.collected = Function.update s.collected c (s.collected c ++ [a]) := by
    obtain ⟨⟨dispatcher, testers, rfl⟩, -⟩ := hmoved
    exact hcollected
  refine ⟨⟨hrecorded', fun c' => ?_⟩, hkept job howned', a, ?_, hsuccess⟩
  · rw [hplaces, hnow, hcollected']
    by_cases hc : c' = c
    · rw [hc, Function.update_self, Function.update_self]
      exact hstanding a hsuccess hsent
    · rw [Function.update_of_ne hc, Function.update_of_ne hc]
      exact h.standing c'
  · rw [hcollected', Function.update_self]

/-- A call returns for a reason that its attempts bear out. -/
theorem Logged.finish (h : s.Logged) (howned : s.Owned c job)
    (hidle : (s.place c).job? = none) {ending : Ending}
    (hsuccess : decide (ending = .delivered) = (s.collected c).getLast?.any Attempt.success)
    (hreason : match ending with
      | .delivered => True
      | .exhausted => (s.collected c).length = delays.length
      | .interrupted => (s.collected c).length < delays.length
      | .unrendered => (s.collected c).length = 1) : (s.finish c ending).Logged :=
  ⟨h.recorded.finish howned hidle hsuccess hreason, h.standing⟩

/-- A caller that goes on with a job of its own. -/
theorem Logged.owned (h : s.Logged) {place : Worker F} (hplace : s.place c = place)
    (hjob : place.job? = some job) : s.Owned c job :=
  h.recorded.owned c job (hplace ▸ hjob)

/-- **A caller gets a job** and begins with it. -/
theorem Logged.begin (h : s.Logged) (hidle : (s.place c).job? = none) {err : Option String}
    {fails : Bool} (hmoved : Moved s s' c
      (if err.isNone then .attempting job 0 s.dispatcher.now else .idle))
    (hnow : s'.dispatcher.now = s.dispatcher.now) : (s'.begin c job err fails).Logged := by
  have henter := h.enter hidle job
  have howned := (h.recorded.enter hidle job).2
  have hcollected : (s.enter c job).collected c = [] := Function.update_self _ _ _
  have hplaces := hmoved.place
  have hmoved' : Moved (s.enter c job) (s'.enter c job) c
      (if err.isNone then .attempting job 0 s.dispatcher.now else .idle) := by
    obtain ⟨⟨dispatcher, testers, rfl⟩, -⟩ := hmoved
    exact ⟨⟨dispatcher, testers, rfl⟩, hplaces⟩
  have hstanding : Standing ((s.enter c job).collected c) s.dispatcher.now
      (Worker.attempting job 0 s.dispatcher.now) := by
    rw [hcollected]
    exact standing_attempting (fun _ ha => absurd ha List.not_mem_nil) fun _ ha => by cases ha
  cases err with
  | none =>
    refine henter.move hmoved' hnow (fun job' hjob' => ?_) hstanding
    rcases Dispatcher.job?_attempting job 0 s.dispatcher.now with hnone | hsome
    · exact absurd (hnone.symm.trans hjob') (by simp)
    · cases hsome.symm.trans hjob'
      exact howned
  | some text =>
    have hlogged := henter.move hmoved' hnow (fun _ hjob' => by cases hjob') trivial
    have howned' := (henter.recorded.move hmoved' fun _ hjob' => by cases hjob').2 job howned
    have hcollected' : (s'.enter c job).collected c = [] := Function.update_self _ _ _
    have hidle' : ((s'.enter c job).place c).job? = none := by
      rw [hmoved'.place, Function.update_self]
      rfl
    have hself : Moved ((s'.enter c job).record c job 1 ⟨none, text⟩ fails)
        ((s'.enter c job).record c job 1 ⟨none, text⟩ fails) c ((s'.enter c job).place c) :=
      ⟨⟨_, _, rfl⟩, (Function.update_eq_self c _).symm⟩
    obtain ⟨hrecord, howned'', a, ha, hsuccess⟩ := hlogged.attempt howned'
      (by rw [hcollected']; exact due_nil _) (by rw [hcollected']; decide) (by rw [hcollected']; rfl)
      hself rfl (Or.inl hidle') fun _ _ _ => standing_none hidle'
    rw [hcollected', List.nil_append] at ha
    refine hrecord.finish howned'' hidle' ?_ ?_
    · rw [ha]
      exact hsuccess.symm
    · show List.length _ = 1
      rw [ha]
      rfl

/-- **An attempt is made.** -/
theorem Logged.stepAttempt (h : s.Logged) {index : Nat} (hplace : s.place c = .sending job index)
    (result : AttemptResult) (fails : Bool) : (s.step (.attempt c result fails)).Logged := by
  have howned := h.owned hplace rfl
  obtain ⟨hindex, hlength, hdue⟩ := hplace ▸ h.standing c
  have hmove : Moved (s.record c job (index + 1) result fails)
      ((s.record c job (index + 1) result fails).move c (.attempt · result)
        (after job index result s.dispatcher.now)) c
      (after job index result s.dispatcher.now) ∧ _ = s.dispatcher.now :=
    moved_move fun w hw => by
      subst hw
      exact workers_attempt hplace result
  obtain ⟨hmoved, hnow⟩ := hmove
  have hstanding : ∀ a : Attempt, a.success = result.success → a.sentAt = s.dispatcher.now →
      Standing (s.collected c ++ [a]) s.dispatcher.now
        (after job index result s.dispatcher.now) := by
    intro a hsuccess hsent
    unfold after
    split
    next => trivial
    next hfailed =>
      have hnext : Standing (s.collected c ++ [a]) s.dispatcher.now
          (Worker.attempting job (s.collected c ++ [a]).length s.dispatcher.now) := by
        refine standing_attempting (List.forall_mem_append.mpr ⟨hdue.failed, ?_⟩) fun b hb => ?_
        · exact List.forall_mem_singleton.mpr (hsuccess.trans (Bool.not_eq_true _ ▸ hfailed))
        · rw [List.getLast?_concat] at hb
          cases hb
          exact hsent
      rwa [List.length_append, List.length_singleton, ← hindex] at hnext
  obtain ⟨hlogged, howned', a, ha, hsuccess⟩ := h.attempt howned hdue (hindex ▸ hlength)
    (congrArg (· + 1) hindex) hmoved hnow job?_after hstanding
  have hlast := congrArg List.getLast? ha
  rw [List.getLast?_concat] at hlast
  have hlong := congrArg List.length ha
  rw [List.length_append, List.length_singleton, ← hindex] at hlong
  have hplaces : _ = after job index result s.dispatcher.now :=
    (congrFun hmoved.place c).trans (Function.update_self _ _ _)
  simp only [Deliveries.step, hplace]
  split
  next hok =>
    refine hlogged.finish howned' ?_ ?_ trivial
    · rw [hplaces, after, if_pos hok]
      rfl
    · rw [hlast]
      exact (hsuccess.trans hok).symm
  next hfailed =>
    split
    next => exact hlogged
    next hout =>
      refine hlogged.finish howned' ?_ ?_ ?_
      · rw [hplaces, after, if_neg hfailed, Worker.attempting,
          List.getElem?_eq_none (Nat.le_of_not_lt hout)]
        rfl
      · rw [hlast]
        exact (hsuccess.trans (Bool.not_eq_true _ ▸ hfailed)).symm
      · show List.length _ = delays.length
        omega

/-- A sleep is over, or the context ends it. -/
theorem Logged.stepWake (h : s.Logged) : (s.step (.wake c)).Logged := by
  simp only [Deliveries.step]
  split
  next job index wakesAt hplace =>
    obtain ⟨hindex, hlength, hdue⟩ := hplace ▸ h.standing c
    split
    next htime =>
      obtain ⟨hmoved, hnow⟩ := @moved_move D F s c .wake (.sending job index) fun w hw => by
        subst hw
        exact workers_wake hplace htime
      refine h.move hmoved hnow (fun job' hjob' => ?_) ⟨hindex, hlength, hdue.mono htime⟩
      cases hjob'
      exact h.owned hplace rfl
    next => exact h
  next => exact h

/-- A sleep that is interrupted ends its call with fewer attempts than there are delays. -/
theorem Logged.interrupt (h : s.Logged) {index : Nat} {wakesAt : Time}
    (hplace : s.place c = .sleeping job index wakesAt) (hmoved : Moved s s' c .idle)
    (hnow : s'.dispatcher.now = s.dispatcher.now) : (s'.finish c .interrupted).Logged := by
  obtain ⟨hindex, hlength, hdue⟩ := hplace ▸ h.standing c
  have hlogged := h.move hmoved hnow (fun _ hjob' => by cases hjob') trivial
  have howned := (h.recorded.move hmoved fun _ hjob' => by cases hjob').2 job (h.owned hplace rfl)
  have hidle : (s'.place c).job? = none := by
    rw [hmoved.place, Function.update_self]
    rfl
  have hcollected : s'.collected = s.collected := by
    obtain ⟨⟨dispatcher, testers, rfl⟩, -⟩ := hmoved
    rfl
  refine hlogged.finish howned hidle ?_ ?_
  · rw [hcollected]
    cases hlast : (s.collected c).getLast? with
    | none => rfl
    | some a => exact (hdue.failed a (List.mem_of_getLast? hlast)).symm
  · show List.length _ < delays.length
    rw [hcollected]
    omega

private theorem Logged.stepInterrupt (h : s.Logged) : (s.step (.interrupt c)).Logged := by
  simp only [Deliveries.step]
  split
  next job index wakesAt hplace =>
    cases c with
    | inl w =>
      dsimp only
      split
      next hcancelled =>
        obtain ⟨hworkers, hnow⟩ := workers_interrupt hplace hcancelled
        exact h.interrupt hplace (moved_worker hworkers) hnow
      next => exact h
    | inr n => exact h.interrupt hplace (moved_tester s n .idle) rfl
  next => exact h

/-- **A call of a service**: it may delete attempts, and adds none. -/
theorem Logged.stepCall (h : s.Logged) {call : Tables.Call D F}
    (hother : ∀ statement ∈ call.statements, statement.addsAttempt = false) :
    (s.step (.call call)).Logged := by
  have hr := h.recorded
  refine ⟨⟨hr.course, hr.log, fun c job hjob => ?_, fun r hr' => ?_, hr.once, ?_, ?_⟩, h.standing⟩
  · have howned := hr.owned c job hjob
    exact ⟨howned.call, howned.collected, howned.unreturned, howned.alone⟩
  · have hended := hr.returned r hr'
    exact ⟨hended.call, hended.attempts, hended.success, hended.reason⟩
  · exact (Tables.attempts_step hother).trans hr.stored
  · exact Tables.Sound.run hr.sound [call]

/-! ### The dispatcher beneath -/

omit [DecidableEq D] in
/-- The dispatcher takes part in a move of a worker, and in no move of a test. -/
private theorem dispatcher_move {a : Fin deliveryWorkerCount → Dispatcher.Action F}
    {place : Worker F} : (s.move c a place).dispatcher =
      match c with
      | .inl w => s.dispatcher.step (a w)
      | .inr _ => s.dispatcher := by
  cases c <;> rfl

/-- A call that begins leaves the dispatcher alone. -/
private theorem dispatcher_begin {err : Option String} {fails : Bool} :
    (s.begin c job err fails).dispatcher = s.dispatcher ∧
      (s.begin c job err fails).calls = s.calls ++ [job] := by
  cases err <;> exact ⟨rfl, rfl⟩

/-- The step of the dispatcher. -/
def Action.project : Action D F → Option (Dispatcher.Action F)
  | .enqueue job => some (.enqueue job)
  | .take w err _ => some (.take w err.isNone)
  | .attempt (.inl w) result _ => some (.attempt w result)
  | .wake (.inl w) => some (.wake w)
  | .interrupt (.inl w) => some (.interrupt w)
  | .wait ns => some (.wait ns)
  | .cancel => some .cancel
  | .exit w => some (.exit w)
  | .test _ _ _ _ _ _ | .attempt (.inr _) _ _ | .wake (.inr _) | .interrupt (.inr _) | .call _ => none

/-- **The attempts are put beside the dispatcher**, which takes its own steps. -/
theorem dispatcher_step (s : Deliveries D F) (a : Action D F) :
    (s.step a).dispatcher = (a.project.map s.dispatcher.step).getD s.dispatcher := by
  cases a with
  | enqueue job => rfl
  | wait ns => rfl
  | cancel => rfl
  | exit w => rfl
  | call call => rfl
  | take w err fails =>
    simp only [step, Action.project, Option.map_some, Option.getD_some]
    split
    next job rest hidle hqueue => exact dispatcher_begin.1
    next => simp only [Dispatcher.step]
  | test n event config data err fails =>
    simp only [step]
    split
    next => exact dispatcher_begin.1
    next => rfl
  | attempt c result fails =>
    simp only [step]
    split
    next job index hplace =>
      have hmove := @dispatcher_move D F (s.record c job (index + 1) result fails) c
        (.attempt · result) (after job index result s.dispatcher.now)
      have hgoal : ((s.record c job (index + 1) result fails).move c (.attempt · result)
          (after job index result s.dispatcher.now)).dispatcher =
            ((Action.attempt c result fails : Action D F).project.map s.dispatcher.step).getD
              s.dispatcher := by
        rw [hmove]
        cases c <;> rfl
      split
      next => exact hgoal
      next => split <;> exact hgoal
    next hother =>
      cases c with
      | inl w =>
        simp only [Action.project, Option.map_some, Option.getD_some, Dispatcher.step]
        split
        next job index hplace => exact absurd hplace (hother job index)
        next => rfl
      | inr n => rfl
  | wake c =>
    simp only [step]
    cases c with
    | inl w =>
      simp only [Action.project, Option.map_some, Option.getD_some, Dispatcher.step]
      cases hplace : s.dispatcher.workers w with
      | sleeping job index wakesAt =>
        rw [show s.place (.inl w) = _ from hplace]
        dsimp only
        split
        next htime => simp only [move, Dispatcher.step, hplace, if_pos htime]
        next => rfl
      | _ => rw [show s.place (.inl w) = _ from hplace]
    | inr n =>
      split
      next => split <;> rfl
      next => rfl
  | interrupt c =>
    simp only [step]
    cases c with
    | inl w =>
      simp only [Action.project, Option.map_some, Option.getD_some, Dispatcher.step]
      cases hplace : s.dispatcher.workers w with
      | sleeping job index wakesAt =>
        rw [show s.place (.inl w) = _ from hplace]
        cases s.dispatcher.cancelled <;> rfl
      | _ => rw [show s.place (.inl w) = _ from hplace]
    | inr n => split <;> rfl

/-! ### The jobs -/

/-- The jobs are enqueued in event-id order, and nobody else adds attempts. -/
def Regular (s : Deliveries D F) : Action D F → Prop
  | .enqueue job => ∀ j ∈ s.dispatcher.enqueued, j.event.id < job.event.id
  | .call call => ∀ statement ∈ call.statements, statement.addsAttempt = false
  | _ => True

instance decidableRegular (s : Deliveries D F) : ∀ a, Decidable (Regular s a)
  | .enqueue job =>
    inferInstanceAs (Decidable (∀ j ∈ s.dispatcher.enqueued, j.event.id < job.event.id))
  | .call call =>
    inferInstanceAs (Decidable (∀ statement ∈ call.statements, statement.addsAttempt = false))
  | .take _ _ _ | .test _ _ _ _ _ _ | .attempt _ _ _ | .wake _ | .interrupt _ | .wait _ | .cancel
  | .exit _ => isTrue trivial

/-- The calls of `dispatch` are in event-id order, but for the tests, and before those to come. -/
structure Queued (s : Deliveries D F) : Prop where
  dispatcher : s.dispatcher.Inv
  enqueued : ∀ job ∈ s.calls, 0 < job.event.id → job ∈ s.dispatcher.enqueued
  taken : ∀ job ∈ s.calls, 0 < job.event.id → ∀ k ∈ s.dispatcher.queue, job.event.id < k.event.id
  order : s.calls.Pairwise fun a b => 0 < a.event.id → 0 < b.event.id → a.event.id < b.event.id

omit [DecidableEq D] in
/-- Jobs that are enqueued in event-id order are so for the dispatcher, too. -/
private theorem ordered_project {a : Action D F} (ha : Regular s a) :
    ∀ a' ∈ a.project, Dispatcher.Ordered s.dispatcher a' := by
  intro a' ha'
  cases a' with
  | enqueue job =>
    cases a with
    | enqueue job' =>
      cases ha'
      exact ha
    | attempt c result fails => cases c <;> cases ha'
    | wake c => cases c <;> cases ha'
    | interrupt c => cases c <;> cases ha'
    | _ => cases ha'
  | _ => trivial

/-- The dispatcher keeps its invariant in the log's runs. -/
private theorem inv_dispatcher {a : Action D F} (h : s.dispatcher.Inv) (ha : Regular s a) :
    (s.step a).dispatcher.Inv := by
  rw [dispatcher_step]
  have hordered := ordered_project ha
  cases hproject : a.project with
  | none => exact h
  | some a' => exact Dispatcher.inv_step (hordered a' (hproject ▸ rfl)) h

def usesQueue : Dispatcher.Action F → Bool
  | .enqueue _ | .take _ _ => true
  | _ => false

/-- The steps of the workers leave the queue as it is. -/
theorem queue_step {d : Dispatcher F} {a : Dispatcher.Action F}
    (ha : usesQueue a = false) :
    (d.step a).queue = d.queue ∧ (d.step a).enqueued = d.enqueued := by
  cases a with
  | enqueue job => cases ha
  | take w renders => cases ha
  | attempt w result =>
    simp only [Dispatcher.step]
    split
    next => split <;> exact ⟨rfl, rfl⟩
    next => exact ⟨rfl, rfl⟩
  | wake w =>
    simp only [Dispatcher.step]
    split
    next => split <;> exact ⟨rfl, rfl⟩
    next => exact ⟨rfl, rfl⟩
  | wait ns => exact ⟨rfl, rfl⟩
  | cancel => exact ⟨rfl, rfl⟩
  | interrupt w =>
    simp only [Dispatcher.step]
    split <;> exact ⟨rfl, rfl⟩
  | exit w =>
    simp only [Dispatcher.step]
    split <;> exact ⟨rfl, rfl⟩

omit [DecidableEq D] in
/-- A step that takes nothing from the queue and calls `dispatch` for no event. -/
theorem Queued.of_eq (h : s.Queued) (hinv : s'.dispatcher.Inv)
    (hqueue : s'.dispatcher.queue = s.dispatcher.queue)
    (henqueued : s'.dispatcher.enqueued = s.dispatcher.enqueued)
    (hcalls : ∃ tests, s'.calls = s.calls ++ tests ∧ ∀ job ∈ tests, job.event.id = 0) : s'.Queued := by
  obtain ⟨tests, heq, htests⟩ := hcalls
  have hold : ∀ job ∈ s'.calls, 0 < job.event.id → job ∈ s.calls := fun job hjob hid => by
    rw [heq] at hjob
    rcases List.mem_append.mp hjob with hjob | hjob
    · exact hjob
    · have := htests job hjob
      omega
  refine ⟨hinv, fun job hjob hid => ?_, fun job hjob hid => ?_, ?_⟩
  · rw [henqueued]
    exact h.enqueued job (hold job hjob hid) hid
  · rw [hqueue]
    exact h.taken job (hold job hjob hid) hid
  · rw [heq]
    refine List.pairwise_append.mpr ⟨h.order, ?_, fun a _ b hb _ hid => ?_⟩
    · refine List.Pairwise.imp_of_mem (R := fun _ _ => True) (fun ha _ _ hid _ => ?_)
        (List.pairwise_of_forall fun _ _ => trivial)
      have := htests _ ha
      omega
    · have := htests b hb
      omega

/-- A step of the workers or the tests. -/
theorem Queued.of_calls (h : s.Queued) {a : Action D F} (hinv : (s.step a).dispatcher.Inv)
    (hother : ∀ a' ∈ a.project, usesQueue a' = false) (hcalls : (s.step a).calls = s.calls) :
    (s.step a).Queued := by
  have hsame : (s.step a).dispatcher.queue = s.dispatcher.queue ∧
      (s.step a).dispatcher.enqueued = s.dispatcher.enqueued := by
    rw [dispatcher_step]
    cases hproject : a.project with
    | none => exact ⟨rfl, rfl⟩
    | some a' => exact queue_step (hother a' hproject)
  exact h.of_eq hinv hsame.1 hsame.2
    ⟨[], hcalls.trans (List.append_nil _).symm, fun _ hj => absurd hj List.not_mem_nil⟩

omit [DecidableEq D] in
/-- A move begins no call. -/
private theorem calls_move {a : Fin deliveryWorkerCount → Dispatcher.Action F} {place : Worker F} :
    (s.move c a place).calls = s.calls := by
  cases c <;> rfl

/-- A job that is enqueued comes after all that were. -/
theorem Queued.stepEnqueue (h : s.Queued) {job : DeliveryJob F}
    (ha : ∀ j ∈ s.dispatcher.enqueued, j.event.id < job.event.id) :
    (s.step (.enqueue job)).Queued := by
  have hinv := inv_dispatcher h.dispatcher (a := .enqueue job) ha
  have hqueue : ∀ k ∈ (s.dispatcher.enqueue job).queue, k ∈ s.dispatcher.queue ∨ k = job := by
    unfold Dispatcher.enqueue
    split
    next => exact fun k hk => (List.mem_append.mp hk).imp_right List.mem_singleton.mp
    next => exact fun k hk => Or.inl hk
  have henqueued : ∀ k ∈ s.dispatcher.enqueued, k ∈ (s.dispatcher.enqueue job).enqueued := by
    unfold Dispatcher.enqueue
    split
    next => exact fun k hk => List.mem_append_left _ hk
    next => exact fun k hk => hk
  refine ⟨hinv, fun j hj hid => henqueued j (h.enqueued j hj hid), fun j hj hid k hk => ?_, h.order⟩
  rcases hqueue k hk with hk | rfl
  · exact h.taken j hj hid k hk
  · exact ha j (h.enqueued j hj hid)

/-- A worker begins with the job at the head of the queue. -/
theorem Queued.stepTake (h : s.Queued) {w : Fin deliveryWorkerCount} {err : Option String}
    {fails : Bool} : (s.step (.take w err fails)).Queued := by
  have hinv := inv_dispatcher h.dispatcher (a := .take w err fails) trivial
  simp only [Deliveries.step]
  simp only [Deliveries.step] at hinv
  split
  next job rest hidle hqueue =>
    rw [hidle, hqueue] at hinv
    obtain ⟨hd, hcalls⟩ := @dispatcher_begin D F _
      { s with dispatcher := s.dispatcher.step (.take w err.isNone) } (.inl w) job err fails
    have hstep : (s.dispatcher.step (.take w err.isNone)).queue = rest ∧
        (s.dispatcher.step (.take w err.isNone)).enqueued = s.dispatcher.enqueued := by
      simp only [Dispatcher.step, hidle, hqueue]
      exact ⟨rfl, rfl⟩
    have hmem : job ∈ s.dispatcher.queue := hqueue ▸ List.mem_cons_self
    have hrest : ∀ k ∈ rest, k ∈ s.dispatcher.queue := fun k hk =>
      hqueue ▸ List.mem_cons_of_mem _ hk
    have hsorted := List.pairwise_cons.mp (hqueue ▸ h.dispatcher.queue)
    refine ⟨hinv, ?_, ?_, ?_⟩
    · rw [hd, hcalls, hstep.2]
      exact List.forall_mem_append.mpr ⟨h.enqueued, List.forall_mem_singleton.mpr fun _ =>
        h.dispatcher.known job (Or.inl hmem)⟩
    · rw [hd, hcalls, hstep.1]
      exact List.forall_mem_append.mpr ⟨fun j hj hid k hk => h.taken j hj hid k (hrest k hk),
        List.forall_mem_singleton.mpr fun _ => hsorted.1⟩
    · rw [hcalls]
      refine List.pairwise_append.mpr ⟨h.order, List.pairwise_singleton _ _, fun j hj k hk => ?_⟩
      rw [List.mem_singleton.mp hk]
      exact fun hid _ => h.taken j hj hid job hmem
  next => exact h

/-- A test is none of the deliveries that are in order. -/
theorem Queued.stepTest (h : s.Queued) {n : Nat} {event : Event F} {config : WebhookConfig}
    {data : TemplateData F} {err : Option String} {fails : Bool} :
    (s.step (.test n event config data err fails)).Queued := by
  have hinv := inv_dispatcher h.dispatcher (a := .test n event config data err fails) trivial
  have hdispatcher := dispatcher_step s (.test n event config data err fails)
  simp only [Action.project, Option.map_none, Option.getD_none] at hdispatcher
  refine h.of_eq hinv (by rw [hdispatcher]) (by rw [hdispatcher]) ?_
  simp only [Deliveries.step]
  split
  next => exact ⟨_, dispatcher_begin.2, List.forall_mem_singleton.mpr rfl⟩
  next => exact ⟨[], (List.append_nil _).symm, fun _ hj => absurd hj List.not_mem_nil⟩

/-- Every regular step keeps the calls in the order of their events. -/
theorem Queued.step (h : s.Queued) {a : Action D F} (ha : Regular s a) : (s.step a).Queued := by
  have hinv := inv_dispatcher h.dispatcher ha
  cases a with
  | enqueue job => exact h.stepEnqueue ha
  | take w err fails => exact h.stepTake
  | test n event config data err fails => exact h.stepTest
  | call call => exact h.of_calls hinv (fun _ h => by cases h) rfl
  | wait ns => exact h.of_calls hinv (fun _ h => by cases h; rfl) rfl
  | cancel => exact h.of_calls hinv (fun _ h => by cases h; rfl) rfl
  | exit w => exact h.of_calls hinv (fun _ h => by cases h; rfl) rfl
  | attempt c result fails =>
    refine h.of_calls hinv (fun _ h => by cases c <;> cases h; rfl) ?_
    simp only [Deliveries.step]
    split
    next job index hplace =>
      split
      next => exact calls_move
      next => split <;> exact calls_move
    next => rfl
  | wake c =>
    refine h.of_calls hinv (fun _ h => by cases c <;> cases h; rfl) ?_
    simp only [Deliveries.step]
    split
    next =>
      split
      next => exact calls_move
      next => rfl
    next => rfl
  | interrupt c =>
    refine h.of_calls hinv (fun _ h => by cases c <;> cases h; rfl) ?_
    simp only [Deliveries.step]
    split
    next =>
      cases c with
      | inl w =>
        dsimp only
        split <;> rfl
      | inr n => rfl
    next => rfl

/-! ### Runs -/

/-- A step of the dispatcher that moves no worker. -/
theorem Logged.still (h : s.Logged) {d : Dispatcher F} (hworkers : d.workers = s.dispatcher.workers)
    (hnow : s.dispatcher.now.ns ≤ d.now.ns) : ({ s with dispatcher := d } : Deliveries D F).Logged := by
  have hmoved : Moved s { s with dispatcher := d } (.inl 0) (s.dispatcher.workers 0) :=
    moved_worker (by rw [hworkers, Function.update_eq_self])
  refine ⟨(h.recorded.move hmoved fun job hjob => h.recorded.owned (.inl 0) job hjob).1, fun c => ?_⟩
  cases c with
  | inl w =>
    show Standing _ d.now (d.workers w)
    rw [hworkers]
    exact (h.standing (.inl w)).mono hnow
  | inr n => exact (h.standing (.inr n)).mono hnow

/-- A worker takes a job, and renders its body. -/
theorem Logged.stepTake (h : s.Logged) {w : Fin deliveryWorkerCount} {err : Option String}
    {fails : Bool} : (s.step (.take w err fails)).Logged := by
  simp only [Deliveries.step]
  split
  next job rest hidle hqueue =>
    obtain ⟨hworkers, hnow⟩ := workers_take hidle hqueue err.isNone
    refine h.begin ?_ (moved_worker hworkers) hnow
    rw [show s.place (.inl w) = _ from hidle]
    rfl
  next => exact h

/-- A test renders its body, and sends it from the request's own goroutine. -/
theorem Logged.stepTest (h : s.Logged) {n : Nat} {event : Event F} {config : WebhookConfig}
    {data : TemplateData F} {err : Option String} {fails : Bool} :
    (s.step (.test n event config data err fails)).Logged := by
  simp only [Deliveries.step]
  split
  next hidle =>
    refine h.begin ?_ (moved_tester s n _) rfl
    rw [show s.place (.inr n) = _ from hidle]
    rfl
  next => exact h

private theorem Logged.stepExit (h : s.Logged) (w : Fin deliveryWorkerCount) :
    (s.step (.exit w)).Logged := by
  obtain ⟨hnow, place, hworkers, hplace⟩ := workers_exit s.dispatcher w
  refine h.move (moved_worker hworkers) hnow (fun job hjob => ?_) ?_
  · rcases hplace with rfl | rfl
    · exact h.recorded.owned (.inl w) job hjob
    · cases hjob
  · rcases hplace with rfl | rfl
    · exact h.standing (.inl w)
    · trivial

/-- **What is recorded stays in order**, in every step. -/
theorem Logged.step (h : s.Logged) {a : Action D F} (ha : Regular s a) : (s.step a).Logged := by
  cases a with
  | enqueue job =>
    obtain ⟨hworkers, hnow⟩ := workers_enqueue s.dispatcher job
    exact h.still hworkers (hnow ▸ Int.le_refl _)
  | take w err fails => exact h.stepTake
  | test n event config data err fails => exact h.stepTest
  | attempt c result fails =>
    cases hplace : s.place c with
    | sending job index => exact h.stepAttempt hplace result fails
    | _ =>
      simp only [Deliveries.step, hplace]
      exact h
  | wake c => exact h.stepWake
  | interrupt c => exact h.stepInterrupt
  | wait ns => exact h.still rfl (Int.le_add_of_nonneg_right (Int.natCast_nonneg ns))
  | cancel => exact h.still rfl (Int.le_refl _)
  | exit w => exact h.stepExit w
  | call call => exact h.stepCall ha

/-- Before the first step nothing is logged, whatever rows there are. -/
theorem logged_initial (now : Time) {tables : Tables D F} (hsound : tables.Sound) :
    (initial now tables).Logged := by
  have hjob : ∀ c, ((initial now tables : Deliveries D F).place c).job? = none := fun c => by
    cases c <;> rfl
  refine ⟨⟨fun k job hk => ?_, fun _ h => absurd h List.not_mem_nil, fun c job h => ?_,
    fun _ h => absurd h List.not_mem_nil, List.nodup_nil, ?_, hsound⟩, fun c => ?_⟩
  · cases hk
  · exact absurd ((hjob c).symm.trans h) (by simp)
  · show tables.attempts.Sublist (tables.attempts ++ [])
    rw [List.append_nil]
  · exact standing_none (hjob c)

omit [DecidableEq D] in
/-- Before the first step nothing is enqueued. -/
theorem queued_initial (now : Time) (tables : Tables D F) : (initial now tables).Queued where
  dispatcher := Dispatcher.inv_initial now
  enqueued := fun _ h => absurd h List.not_mem_nil
  taken := fun _ h => absurd h List.not_mem_nil
  order := List.Pairwise.nil

omit [DecidableEq D] in
/-- A move leaves the rows there were before the run. -/
private theorem former_move {a : Fin deliveryWorkerCount → Dispatcher.Action F} {place : Worker F} :
    (s.move c a place).former = s.former := by
  cases c <;> rfl

private theorem former_step (s : Deliveries D F) (a : Action D F) :
    (s.step a).former = s.former := by
  have hbegin : ∀ {s : Deliveries D F} {c job err fails}, (s.begin c job err fails).former = s.former :=
    fun {s c job err fails} => by cases err <;> rfl
  cases a with
  | take w err fails =>
    simp only [Deliveries.step]
    split
    next => exact hbegin
    next => rfl
  | test n event config data err fails =>
    simp only [Deliveries.step]
    split
    next => exact hbegin
    next => rfl
  | attempt c result fails =>
    simp only [Deliveries.step]
    split
    next =>
      split
      next => exact former_move
      next => split <;> exact former_move
    next => rfl
  | wake c =>
    simp only [Deliveries.step]
    split
    next =>
      split
      next => exact former_move
      next => rfl
    next => rfl
  | interrupt c =>
    simp only [Deliveries.step]
    split
    next =>
      cases c with
      | inl w =>
        dsimp only
        split <;> rfl
      | inr n => rfl
    next => rfl
  | _ => rfl

/-! ### What is listed -/

/-- An attempt of an event was made by a call for that event. -/
theorem call_of_entry (h : s.Logged) {eventID : Int} {entry : Nat × Attempt}
    (hentry : entry ∈ s.log) (heq : entry.2.eventID = some eventID) :
    ∃ job, s.calls[entry.1]? = some job ∧ job.event.id = eventID := by
  have hjob := List.getElem?_eq_getElem (h.recorded.log entry hentry)
  have hmem : entry.2 ∈ s.attemptsOf entry.1 :=
    List.mem_map_of_mem (List.mem_filter.mpr ⟨hentry, beq_self_eq_true _⟩)
  have habout := ((h.recorded.course _ _ hjob).about _ hmem).2
  refine ⟨_, hjob, ?_⟩
  rw [heq] at habout
  split at habout
  next => exact (Option.some.inj habout).symm
  next => cases habout

/-- The attempts of an event are those of one call. -/
theorem one_call (h : s.Logged) (hq : s.Queued) {eventID : Int} (hpos : 0 < eventID)
    {entry entry' : Nat × Attempt} (hentry : entry ∈ s.log) (hentry' : entry' ∈ s.log)
    (heq : entry.2.eventID = some eventID) (heq' : entry'.2.eventID = some eventID) :
    entry.1 = entry'.1 := by
  obtain ⟨job, hjob, hid⟩ := call_of_entry h hentry heq
  obtain ⟨job', hjob', hid'⟩ := call_of_entry h hentry' heq'
  obtain ⟨hlt, hget⟩ := List.getElem?_eq_some_iff.mp hjob
  obtain ⟨hlt', hget'⟩ := List.getElem?_eq_some_iff.mp hjob'
  have horder := List.pairwise_iff_getElem.mp hq.order
  rcases Nat.lt_trichotomy entry.1 entry'.1 with hne | heq | hne
  · have := horder entry.1 entry'.1 hlt hlt' hne
    rw [hget, hget', hid, hid'] at this
    have := this hpos hpos
    omega
  · exact heq
  · have := horder entry'.1 entry.1 hlt' hlt hne
    rw [hget, hget', hid, hid'] at this
    have := this hpos hpos
    omega

/-- **What is stored of an event is part of one call's attempts.** -/
theorem stored_sublist (h : s.Logged) (hq : s.Queued) {eventID : Int} (hpos : 0 < eventID)
    (hformer : ∀ a ∈ s.former, a.eventID ≠ some eventID) :
    listAttempts s.tables eventID = [] ∨
      ∃ k job, s.calls[k]? = some job ∧ job.event.id = eventID ∧
        (listAttempts s.tables eventID).Sublist (s.attemptsOf k) := by
  have hnone : s.former.filter (fun a => a.eventID == some eventID) = [] :=
    List.filter_eq_nil_iff.mpr fun a ha heq => hformer a ha (beq_iff_eq.mp heq)
  have hstored : (listAttempts s.tables eventID).Sublist
      ((s.log.map Prod.snd).filter fun a => a.eventID == some eventID) := by
    have hsub := h.recorded.stored.filter fun a => a.eventID == some eventID
    rwa [List.filter_append, hnone, List.nil_append] at hsub
  rw [List.filter_map] at hstored
  by_cases hentry : ∃ entry ∈ s.log, entry.2.eventID = some eventID
  · obtain ⟨entry, hentry, heq⟩ := hentry
    obtain ⟨job, hjob, hid⟩ := call_of_entry h hentry heq
    refine Or.inr ⟨_, job, hjob, hid, hstored.trans (List.Sublist.map _ ?_)⟩
    have hone : s.log.filter ((fun a => a.eventID == some eventID) ∘ Prod.snd) =
        (s.log.filter (·.1 == entry.1)).filter
          ((fun a => a.eventID == some eventID) ∘ Prod.snd) := by
      rw [List.filter_filter]
      refine List.filter_congr fun entry' hentry' => ?_
      cases hcase : ((fun a : Attempt => a.eventID == some eventID) ∘ Prod.snd) entry' with
      | false => rfl
      | true =>
        rw [one_call h hq hpos hentry' hentry (beq_iff_eq.mp hcase) heq, beq_self_eq_true]
        rfl
    rw [hone]
    exact List.filter_sublist
  · left
    have hnil : s.log.filter ((fun a : Attempt => a.eventID == some eventID) ∘ Prod.snd) = [] :=
      List.filter_eq_nil_iff.mpr fun entry hmem heq => hentry ⟨entry, hmem, beq_iff_eq.mp heq⟩
    rw [hnil] at hstored
    exact List.eq_nil_of_sublist_nil hstored

/-- The ids of the rows of an event increase. -/
theorem listAttempts_ids {t : Tables D F} (h : t.Sound) (eventID : Int) :
    (listAttempts t eventID).Pairwise fun a b => a.id < b.id := by
  refine List.Pairwise.filter _ (List.pairwise_filterMap.mpr (h.order.imp ?_))
  intro row row' horder a ha b hb
  cases row <;> cases ha
  cases row' <;> cases hb
  exact horder .attempts _ _ rfl rfl

/-- **The log of attempts** in every run whose jobs are enqueued in event-id order: a call of
`dispatch` returns once, with the course of its job and for a reason. The rows of an event that had
none before the run are attempts of one call of `dispatch` for it, in the order in which they were
made: the earlier ones failed and were waited after. -/
theorem attempts_recorded (now : Time) {tables : Tables D F} (hsound : tables.Sound)
    {as : List (Action D F)} (hregular : Guarded step Regular (initial now tables) as) :
    (∀ r ∈ (run step (initial now tables) as).returned,
      ∃ job, (run step (initial now tables) as).calls[r.call]? = some job ∧
        Course job r.outcome.attempts ∧ (run step (initial now tables) as).Ended r) ∧
      ((run step (initial now tables) as).returned.map Return.call).Nodup ∧
      ∀ eventID, 0 < eventID → (∀ a ∈ tables.attempts, a.eventID ≠ some eventID) →
        ((listAttempts (run step (initial now tables) as).tables eventID).Pairwise
          fun a b => a.id < b.id ∧ Earlier a b) ∧
        (listAttempts (run step (initial now tables) as).tables eventID = [] ∨
          ∃ k job, (run step (initial now tables) as).calls[k]? = some job ∧
            job.event.id = eventID ∧
            (listAttempts (run step (initial now tables) as).tables eventID).Sublist
              ((run step (initial now tables) as).attemptsOf k)) := by
  have hlogged : (run step (initial now tables) as).Logged :=
    hregular.invariant (fun _ _ ha h => h.step ha) (logged_initial now hsound)
  have hqueued : (run step (initial now tables) as).Queued :=
    hregular.invariant (fun _ _ ha h => h.step ha) (queued_initial now tables)
  have hformer : (run step (initial now tables) as).former = tables.attempts :=
    @run_invariant _ _ _ (fun s : Deliveries D F => s.former = tables.attempts)
      (fun s a h => (former_step s a).trans h) _ rfl as
  generalize run step (initial now tables) as = s at hlogged hqueued hformer
  refine ⟨fun r hr => ?_, hlogged.recorded.once, fun eventID hpos hnew => ?_⟩
  · have hended := hlogged.recorded.returned r hr
    have hjob := List.getElem?_eq_getElem hended.call
    refine ⟨_, hjob, ?_, hended⟩
    rw [hended.attempts]
    exact hlogged.recorded.course _ _ hjob
  · have hone := stored_sublist hlogged hqueued hpos (hformer ▸ hnew)
    refine ⟨?_, hone⟩
    rcases hone with hnil | ⟨k, job, hjob, _, hsub⟩
    · rw [hnil]
      exact List.Pairwise.nil
    · exact (listAttempts_ids hlogged.recorded.sound eventID).and
        ((hlogged.recorded.course k job hjob).pairwise.sublist hsub)

end Records

/-- A server, a rule on it, and its first firing. -/
def firing : List (Tables.Call Nat Exact) :=
  [⟨[.insertServer "web" 7 (.ofUnix 0)], false⟩,
    ⟨[.insertRule { id := 0, serverID := 1, metric := .cpuUsage, operator := .greaterThan
                    threshold := .fin 90, durationSeconds := 0, repeatSeconds := 0
                    enabled := true, createdAt := .zero, updatedAt := .zero } (.ofUnix 1)], false⟩,
    ⟨[.insertEvent (Dispatcher.jobOf 1 .firing).event], false⟩]

/-- One of the two workers. -/
def firstWorker : Fin deliveryWorkerCount := ⟨0, Nat.zero_lt_two⟩

/-- The first attempt fails, the second one succeeds, and a test is made meanwhile. -/
def retriedOnce : List (Action Nat Exact) :=
  [.enqueue (Dispatcher.jobOf 1 .firing), .take firstWorker none false,
    .attempt (.inl firstWorker) (Dispatcher.answer 503) false,
    .test 0 (Dispatcher.jobOf 1 .firing).event (Dispatcher.jobOf 1 .firing).config
      (Dispatcher.jobOf 1 .firing).data none false,
    .wait 5000000000, .attempt (.inr 0) (Dispatcher.answer 200) false, .wake (.inl firstWorker),
    .attempt (.inl firstWorker) (Dispatcher.answer 200) false]

/-- The run fails once, is retried after five seconds, and leaves both rows, beside the row of a
test. -/
theorem retriedOnce_recorded :
    (listAttempts (run step (initial (.ofUnix 2) (run Tables.step .empty firing)) retriedOnce).tables
      1).map (fun a => (a.id, a.attempt, a.responseStatus)) =
        [(1, 1, some 503), (3, 2, some 200)] ∧
      (listAttempts (run step (initial (.ofUnix 2) (run Tables.step .empty firing))
        retriedOnce).tables 1).Pairwise fun a b => a.id < b.id ∧ Earlier a b :=
  ⟨by decide +kernel, ((attempts_recorded (.ofUnix 2) (Tables.sound_after firing)
    (by decide +kernel)).2.2 1 (by decide) (by decide +kernel)).1⟩

end Deliveries

end TinyProbe.Alerting
