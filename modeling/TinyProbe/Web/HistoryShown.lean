import TinyProbe.Web.HistoryHook
import Mathlib

/-!
# What a history chart shows

What is shown of a selection comes from requests for that selection (`shown_belongs`): of every value
in the cache, and of every state an instance has or is about to have, the key says which. Two selections
have different keys (`cacheKey_inj`), as the text of an id says which it is: `Int.repr_injective` is
a lemma of `Std`, which is imported by Mathlib as a whole and by no part of it.
-/

namespace TinyProbe.Web

open TinyProbe.Run

/-! ## Keys -/

/-- The text of a range behind the colon tells where the colon is. -/
theorem append_range_inj {s t : List Char} {r r' : HistoryRange}
    (h : s ++ ':' :: r.text.toList = t ++ ':' :: r'.text.toList) : s = t ∧ r = r' := by
  have hreverse := congrArg List.reverse h
  cases r <;> cases r' <;>
    simp [HistoryRange.text] at hreverse <;> exact ⟨hreverse, rfl⟩

/-- **Different selections have different keys.** -/
theorem cacheKey_inj {serverID serverID' : Int} {range range' : HistoryRange}
    (h : cacheKey serverID range = cacheKey serverID' range') :
    serverID = serverID' ∧ range = range' := by
  have hlist : serverID.repr.toList ++ ':' :: range.text.toList =
      serverID'.repr.toList ++ ':' :: range'.text.toList := by
    have := congrArg String.toList h
    simpa [cacheKey, String.toList_append] using this
  obtain ⟨hid, hrange⟩ := append_range_inj hlist
  exact ⟨Int.repr_injective (String.toList_injective hid), hrange⟩

/-! ## Reading the cache -/

section Cache

variable {cache : HistoryCache} {now : Int} {key k : String} {entry : CacheEntry} {data : JSONValue}

/-- What is read is in the cache. -/
theorem cachedHistory_some (h : (cachedHistory cache now key).1 = some data) :
    ∃ entry, AList.lookup key cache = some entry ∧ entry.data = data := by
  unfold cachedHistory at h
  split at h
  next => cases h
  next entry hentry =>
    dsimp only at h
    split at h
    next => cases h
    next => exact ⟨entry, hentry, Option.some.inj h⟩

/-- What is left was there before. -/
theorem lookup_cachedHistory (h : AList.lookup k (cachedHistory cache now key).2 = some entry) :
    AList.lookup k cache = some entry := by
  unfold cachedHistory at h
  split at h
  next => exact h
  next =>
    dsimp only at h
    split at h
    next =>
      rw [Map.lookup_erase] at h
      split at h
      next => cases h
      next => exact h
    next => exact h

/-- Nothing is left under a key that was read in vain. -/
theorem cachedHistory_none (h : (cachedHistory cache now key).1 = none) (later : Int) :
    (cachedHistory (cachedHistory cache now key).2 later key).1 = none := by
  have hlookup : AList.lookup key (cachedHistory cache now key).2 = none := by
    unfold cachedHistory at h ⊢
    split at h
    next hnone => exact hnone
    next =>
      dsimp only at h ⊢
      split at h
      next hage =>
        rw [if_pos hage, Map.lookup_erase, if_pos rfl]
      next => cases h
  rw [cachedHistory, hlookup]

end Cache

/-! ## What the run says of a selection -/

namespace HistoryHooks

/-- A request for the selection has been answered with this body. -/
def Answered (s : HistoryHooks) (serverID : Int) (range : HistoryRange) (data : JSONValue) : Prop :=
  ∃ n r, s.requests n = some r ∧ r.serverID = serverID ∧ r.range = range ∧ (n, data) ∈ s.answers

/-- A request for the selection has failed, and this is the text for it. -/
def Failed (s : HistoryHooks) (serverID : Int) (range : HistoryRange) (message : String) : Prop :=
  ∃ n r serverMessage, s.requests n = some r ∧ r.serverID = serverID ∧ r.range = range ∧
    (n, serverMessage) ∈ s.failures ∧ message = serverMessage.getD historyError

/-- The instance was mounted with the selection, or has sent a request for it. -/
def Begun (s : HistoryHooks) (i : Nat) (serverID : Int) (range : HistoryRange) : Prop :=
  (∃ h, s.hooks i = some h ∧ h.first = (serverID, some range)) ∨
    ∃ n r, s.requests n = some r ∧ r.hook = i ∧ r.serverID = serverID ∧ r.range = range

/-- A state says of the selection of its key what the run says of it. -/
structure Sound (s : HistoryHooks) (i : Nat) (state : HistoryState) : Prop where
  data : ∀ data, state.data = some data →
    ∃ serverID range, state.key = some (cacheKey serverID range) ∧ s.Answered serverID range data
  error : ∀ message, state.error = some message →
    ∃ serverID range, state.key = some (cacheKey serverID range) ∧ s.Failed serverID range message
  loading : state.loading = true → state.data = none ∧ state.error = none ∧
    ∃ serverID range, state.key = some (cacheKey serverID range) ∧ s.Begun i serverID range

/-- What a render shows of a selection comes from requests for it. It says that it is loading only while
it shows nothing else, and only of a selection that the state is not yet about, or that the instance has
begun with or sent a request for. -/
structure Belongs (s : HistoryHooks) (i : Nat) (h : HistoryHook) (serverID : Int)
    (range : Option HistoryRange) (shown : UseHistoryState) : Prop where
  data : ∀ data, shown.data = some data → ∃ r, range = some r ∧ s.Answered serverID r data
  error : ∀ message, shown.error = some message → ∃ r, range = some r ∧ s.Failed serverID r message
  loading : shown.loading = true → ∃ r, range = some r ∧ shown.data = none ∧ shown.error = none ∧
    (h.state.key ≠ some (cacheKey serverID r) ∨ s.Begun i serverID r)
  blank : range = none → shown = { loading := false, error := none, data := none }

structure Inv (s : HistoryHooks) : Prop where
  cache : ∀ key entry, AList.lookup key s.cache = some entry →
    ∃ serverID range, key = cacheKey serverID range ∧ s.Answered serverID range entry.data
  state : ∀ i h, s.hooks i = some h → s.Sound i h.state
  states : ∀ i h state, s.hooks i = some h → state ∈ h.states → s.Sound i state
  rejected : ∀ n r serverMessage, s.requests n = some r → r.phase = .rejected serverMessage →
    (n, serverMessage) ∈ s.failures
  fresh : ∀ n, s.nextRequest ≤ n → s.requests n = none

/-- A later state of the run: instances keep their first selection and requests what they are for, and
the records only grow. -/
structure Extends (s s' : HistoryHooks) : Prop where
  hooks : ∀ i h, s.hooks i = some h → ∃ h', s'.hooks i = some h' ∧ h'.first = h.first
  requests : ∀ n r, s.requests n = some r →
    ∃ r', s'.requests n = some r' ∧ r'.hook = r.hook ∧ r'.serverID = r.serverID ∧ r'.range = r.range
  answers : s.answers ⊆ s'.answers
  failures : s.failures ⊆ s'.failures

section Growth

variable {s s' s'' : HistoryHooks} {i n : Nat} {serverID : Int} {range : HistoryRange}
  {data : JSONValue} {message : String} {state : HistoryState}

theorem Answered.mono (hext : Extends s s') (h : s.Answered serverID range data) :
    s'.Answered serverID range data := by
  obtain ⟨n, r, hr, hid, hrange, hmem⟩ := h
  obtain ⟨r', hr', _, hid', hrange'⟩ := hext.requests n r hr
  exact ⟨n, r', hr', hid'.trans hid, hrange'.trans hrange, hext.answers hmem⟩

theorem Failed.mono (hext : Extends s s') (h : s.Failed serverID range message) :
    s'.Failed serverID range message := by
  obtain ⟨n, r, serverMessage, hr, hid, hrange, hmem, hmessage⟩ := h
  obtain ⟨r', hr', _, hid', hrange'⟩ := hext.requests n r hr
  exact ⟨n, r', serverMessage, hr', hid'.trans hid, hrange'.trans hrange, hext.failures hmem, hmessage⟩

theorem Begun.mono (hext : Extends s s') (h : s.Begun i serverID range) :
    s'.Begun i serverID range := by
  rcases h with ⟨h, hh, hfirst⟩ | ⟨n, r, hr, hhook, hid, hrange⟩
  · obtain ⟨h', hh', hfirst'⟩ := hext.hooks i h hh
    exact Or.inl ⟨h', hh', hfirst'.trans hfirst⟩
  · obtain ⟨r', hr', hhook', hid', hrange'⟩ := hext.requests n r hr
    exact Or.inr ⟨n, r', hr', hhook'.trans hhook, hid'.trans hid, hrange'.trans hrange⟩

theorem Sound.mono (hext : Extends s s') (h : s.Sound i state) : s'.Sound i state where
  data d hd := by
    obtain ⟨serverID, range, hkey, hanswered⟩ := h.data d hd
    exact ⟨serverID, range, hkey, hanswered.mono hext⟩
  error m hm := by
    obtain ⟨serverID, range, hkey, hfailed⟩ := h.error m hm
    exact ⟨serverID, range, hkey, hfailed.mono hext⟩
  loading hl := by
    obtain ⟨hdata, herror, serverID, range, hkey, hbegun⟩ := h.loading hl
    exact ⟨hdata, herror, serverID, range, hkey, hbegun.mono hext⟩

end Growth

/-! ## The parts of a step -/

section Parts

variable {s : HistoryHooks} {i n : Nat} {h h' : HistoryHook} {r r' : HistoryRequest}
  {state : HistoryState} {cache : HistoryCache}

theorem hooks_put (j : Nat) : (s.put i h).hooks j = if j = i then some h else s.hooks j :=
  Function.update_apply s.hooks i (some h) j

theorem requests_putRequest (m : Nat) :
    (s.putRequest n r).requests m = if m = n then some r else s.requests m :=
  Function.update_apply s.requests n (some r) m

theorem extends_put (hfirst : ∀ old, s.hooks i = some old → h.first = old.first) :
    Extends s (s.put i h) where
  hooks j old hold := by
    by_cases hj : j = i
    · refine ⟨h, (hooks_put j).trans (if_pos hj), ?_⟩
      rw [hj] at hold
      exact hfirst old hold
    · exact ⟨old, (hooks_put j).trans ((if_neg hj).trans hold), rfl⟩
  requests m r hr := ⟨r, hr, rfl, rfl, rfl⟩
  answers := List.Subset.refl _
  failures := List.Subset.refl _

/-- An instance takes over, or is about to, states that say what the run says. -/
theorem Inv.put (hinv : Inv s) (hfirst : ∀ old, s.hooks i = some old → h.first = old.first)
    (hstate : (s.put i h).Sound i h.state)
    (hstates : ∀ state ∈ h.states, (s.put i h).Sound i state) : Inv (s.put i h) := by
  have hext := extends_put hfirst
  exact
    { cache := fun key entry hentry => by
        obtain ⟨serverID, range, hkey, hanswered⟩ := hinv.cache key entry hentry
        exact ⟨serverID, range, hkey, hanswered.mono hext⟩
      state := fun j old hold => by
        rw [hooks_put] at hold
        split at hold
        next hj =>
          cases hold
          rw [hj]
          exact hstate
        next => exact (hinv.state j old hold).mono hext
      states := fun j old state hold hmem => by
        rw [hooks_put] at hold
        split at hold
        next hj =>
          cases hold
          rw [hj]
          exact hstates state hmem
        next => exact (hinv.states j old state hold hmem).mono hext
      rejected := hinv.rejected
      fresh := hinv.fresh }

/-- An instance with the same states. -/
theorem Inv.keep (hinv : Inv s) (hh : s.hooks i = some h) (hfirst : h'.first = h.first)
    (hstate : h'.state = h.state) (hstates : h'.states = h.states) : Inv (s.put i h') := by
  have hsame : ∀ old, s.hooks i = some old → h'.first = old.first := fun old hold => by
    rw [hh] at hold
    cases hold
    exact hfirst
  refine hinv.put hsame ?_ fun state hmem => ?_
  · rw [hstate]
    exact (hinv.state i h hh).mono (extends_put hsame)
  · rw [hstates] at hmem
    exact (hinv.states i h state hh hmem).mono (extends_put hsame)

/-- An instance is handed one more state. -/
theorem Inv.setState (hinv : Inv s) (hh : s.hooks i = some h) (hfirst : h'.first = h.first)
    (hstate : h'.state = h.state) (hstates : h'.states = h.states) (hsound : s.Sound i state) :
    Inv (s.put i (h'.setState state)) := by
  have hsame : ∀ old, s.hooks i = some old → (h'.setState state).first = old.first :=
    fun old hold => by
      rw [hh] at hold
      cases hold
      exact hfirst
  have hext := @extends_put s i (h'.setState state) hsame
  refine hinv.put hsame ?_ fun st hmem => ?_
  · show (s.put i (h'.setState state)).Sound i h'.state
    rw [hstate]
    exact (hinv.state i h hh).mono hext
  · rcases List.mem_append.mp hmem with hmem | hmem
    · rw [hstates] at hmem
      exact (hinv.states i h st hh hmem).mono hext
    · rw [List.mem_singleton.mp hmem]
      exact hsound.mono hext

/-- A request goes on, for what it is for. -/
theorem extends_putRequest (hr : s.requests n = some r) (hhook : r'.hook = r.hook)
    (hid : r'.serverID = r.serverID) (hrange : r'.range = r.range) :
    Extends s (s.putRequest n r') where
  hooks j h hh := ⟨h, hh, rfl⟩
  requests m q hq := by
    by_cases hm : m = n
    · refine ⟨r', (requests_putRequest m).trans (if_pos hm), ?_⟩
      rw [hm, hr] at hq
      cases hq
      exact ⟨hhook, hid, hrange⟩
    · exact ⟨q, (requests_putRequest m).trans ((if_neg hm).trans hq), rfl, rfl, rfl⟩
  answers := List.Subset.refl _
  failures := List.Subset.refl _

/-- A later state of which only the requests, the cache and the records are new. -/
theorem Inv.later {s' : HistoryHooks} (hinv : Inv s) (hext : Extends s s')
    (hhooks : s'.hooks = s.hooks)
    (hcache : ∀ key entry, AList.lookup key s'.cache = some entry →
      AList.lookup key s.cache = some entry ∨
        ∃ serverID range, key = cacheKey serverID range ∧ s'.Answered serverID range entry.data)
    (hrejected : ∀ n r serverMessage, s'.requests n = some r → r.phase = .rejected serverMessage →
      (n, serverMessage) ∈ s'.failures)
    (hfresh : ∀ n, s'.nextRequest ≤ n → s'.requests n = none) : Inv s' where
  cache key entry hentry := by
    rcases hcache key entry hentry with hold | hnew
    · obtain ⟨serverID, range, hkey, hanswered⟩ := hinv.cache key entry hold
      exact ⟨serverID, range, hkey, hanswered.mono hext⟩
    · exact hnew
  state j h hh := (hinv.state j h (hhooks ▸ hh)).mono hext
  states j h st hh hmem := (hinv.states j h st (hhooks ▸ hh) hmem).mono hext
  rejected := hrejected
  fresh := hfresh

/-- Entries of the cache may go. -/
theorem Inv.shrink (hinv : Inv s)
    (hcache : ∀ key entry, AList.lookup key cache = some entry →
      AList.lookup key s.cache = some entry) : Inv { s with cache } :=
  have hext : Extends s { s with cache } :=
    { hooks := fun _ h hh => ⟨h, hh, rfl⟩
      requests := fun _ r hr => ⟨r, hr, rfl, rfl, rfl⟩
      answers := List.Subset.refl _
      failures := List.Subset.refl _ }
  hinv.later hext rfl (fun key entry hentry => Or.inl (hcache key entry hentry)) hinv.rejected
    hinv.fresh

/-- A request goes on; if it is rejected, the failure is on record. -/
theorem Inv.putRequest (hinv : Inv s) (hr : s.requests n = some r) (hhook : r'.hook = r.hook)
    (hid : r'.serverID = r.serverID) (hrange : r'.range = r.range)
    (hphase : ∀ serverMessage, r'.phase = .rejected serverMessage →
      (n, serverMessage) ∈ s.failures) : Inv (s.putRequest n r') := by
  refine hinv.later (extends_putRequest hr hhook hid hrange) rfl
    (fun key entry hentry => Or.inl hentry) (fun m q serverMessage hq hphase' => ?_) fun m hm => ?_
  · rw [requests_putRequest] at hq
    split at hq
    next heq =>
      cases hq
      rw [heq]
      exact hphase serverMessage hphase'
    next => exact hinv.rejected m q serverMessage hq hphase'
  · rw [requests_putRequest]
    have hne : m ≠ n := by
      rintro rfl
      rw [hinv.fresh m hm] at hr
      cases hr
    rw [if_neg hne]
    exact hinv.fresh m hm

end Parts

/-! ## The steps -/

section Steps

variable {s : HistoryHooks} {i n : Nat} {h : HistoryHook} {r : HistoryRequest} {key : String}
  {now : Int} {data : JSONValue} {cache : HistoryCache}

theorem sound_blank : s.Sound i HistoryHook.blank where
  data d hd := by cases hd
  error m hm := by cases hm
  loading hl := by cases hl

/-- What is read under a key are answers for its selection. -/
theorem Inv.cached (hinv : Inv s)
    (hsub : ∀ k entry, AList.lookup k cache = some entry → AList.lookup k s.cache = some entry)
    (h : (cachedHistory cache now key).1 = some data) :
    ∃ serverID range, key = cacheKey serverID range ∧ s.Answered serverID range data := by
  obtain ⟨entry, hentry, rfl⟩ := cachedHistory_some h
  exact hinv.cache key entry (hsub key entry hentry)

theorem inv_mount (hinv : Inv s) (hi : s.hooks i = none) (serverID : Int)
    (range : Option HistoryRange) (now later : Int) :
    Inv (s.step (.mount i serverID range now later)) := by
  simp only [step, hi]
  have hnew : ∀ state, ∀ old, s.hooks i = some old →
      (HistoryHook.new serverID range state).first = old.first := fun state old hold => by
    rw [hi] at hold
    cases hold
  cases range with
  | none => exact hinv.put (hnew _) sound_blank fun state hmem => absurd hmem List.not_mem_nil
  | some range =>
    have hcache : ∀ k entry, AList.lookup k (HistoryHook.initialState s.cache serverID (some range)
        now later).2 = some entry → AList.lookup k s.cache = some entry := fun k entry hentry =>
      lookup_cachedHistory (lookup_cachedHistory hentry)
    refine Inv.shrink (hinv.put (hnew _) ?_ fun state hmem => absurd hmem List.not_mem_nil) hcache
    refine ⟨fun d hd => ?_, (fun m hm => by cases hm), fun hl => ⟨?_, rfl, serverID, range, rfl, ?_⟩⟩
    · obtain ⟨serverID', range', hkey, hanswered⟩ :=
        hinv.cached (fun k entry hentry => lookup_cachedHistory hentry) hd
      exact ⟨serverID', range', congrArg some hkey, hanswered.mono (extends_put (hnew _))⟩
    · exact cachedHistory_none (Option.isNone_iff_eq_none.mp hl) later
    · exact Or.inl ⟨_, (hooks_put i).trans (if_pos rfl), rfl⟩

/-- The controller of an instance is aborted. -/
theorem Inv.cleanup (hinv : Inv s) (h : HistoryHook) : Inv (s.cleanup h) := by
  unfold HistoryHooks.cleanup
  split
  next => exact hinv
  next n _ =>
    split
    next => exact hinv
    next r hr => exact hinv.putRequest hr rfl rfl rfl (hinv.rejected n r · hr)

theorem hooks_cleanup (h : HistoryHook) : (s.cleanup h).hooks = s.hooks := by
  unfold HistoryHooks.cleanup
  split
  next => rfl
  next => split <;> rfl

/-- A new request. -/
theorem Inv.send (hinv : Inv s) (hphase : r.phase = .pending) :
    Extends s { s.putRequest s.nextRequest r with nextRequest := s.nextRequest + 1 } ∧
      Inv { s.putRequest s.nextRequest r with nextRequest := s.nextRequest + 1 } := by
  have hext : Extends s { s.putRequest s.nextRequest r with nextRequest := s.nextRequest + 1 } :=
    { hooks := fun j h hh => ⟨h, hh, rfl⟩
      requests := fun m q hq => by
        have hne : m ≠ s.nextRequest := by
          rintro rfl
          rw [hinv.fresh _ (le_refl _)] at hq
          cases hq
        exact ⟨q, (requests_putRequest m).trans ((if_neg hne).trans hq), rfl, rfl, rfl⟩
      answers := List.Subset.refl _
      failures := List.Subset.refl _ }
  refine ⟨hext, hinv.later hext rfl (fun key entry hentry => Or.inl hentry)
    (fun m q serverMessage hq hrejected => ?_) fun m hm => ?_⟩
  · have hq' := (requests_putRequest m).symm.trans hq
    split at hq'
    next =>
      cases hq'
      rw [hphase] at hrejected
      cases hrejected
    next => exact hinv.rejected m q serverMessage hq' hrejected
  · have hlt : s.nextRequest < m := hm
    exact (requests_putRequest m).trans
      ((if_neg (Nat.ne_of_gt hlt)).trans (hinv.fresh m (Nat.le_of_lt hlt)))

theorem inv_runEffect (hinv : Inv s) (hh : s.hooks i = some h) (now : Int) :
    Inv (s.runEffect i h now) := by
  unfold HistoryHooks.runEffect
  dsimp only
  split
  next => exact hinv.setState hh rfl rfl rfl sound_blank
  next range hrange =>
    have hcache : Inv { s with cache := (cachedHistory s.cache now (cacheKey h.serverID range)).2 } :=
      hinv.shrink fun k entry hentry => lookup_cachedHistory hentry
    split
    next data hdata =>
      refine hcache.setState hh rfl rfl rfl ⟨fun d hd => ?_, (fun m hm => by cases hm),
        fun hl => by cases hl⟩
      cases hd
      obtain ⟨serverID, range', hkey, hanswered⟩ := hinv.cached (fun _ _ hentry => hentry) hdata
      exact ⟨serverID, range', congrArg some hkey, hanswered⟩
    next =>
      -- the request is sent, and with it the state that waits for it
      obtain ⟨_, hsent⟩ := hcache.send
        (r := { hook := i, serverID := h.serverID, range, generation := h.generationRef + 1
                aborted := false, phase := .pending }) rfl
      let sender : HistoryHook :=
        { h with
          generationRef := h.generationRef + 1, deps := some h.currentDeps
          controller := some s.nextRequest }
      refine @Inv.setState _ i h sender _ hsent hh rfl rfl rfl ⟨(fun d hd => by cases hd),
        (fun m hm => by cases hm), fun _ => ⟨rfl, rfl, h.serverID, range, rfl, Or.inr ?_⟩⟩
      exact ⟨s.nextRequest, _, (requests_putRequest _).trans (if_pos rfl), rfl, rfl, rfl⟩

/-- A request is rejected, and that is on record. -/
theorem Inv.reject (hinv : Inv s) (hr : s.requests n = some r) (serverMessage : Option String) :
    Inv { s.putRequest n { r with phase := .rejected serverMessage } with
      failures := s.failures ++ [(n, serverMessage)] } := by
  have hlogged : Inv { s with failures := s.failures ++ [(n, serverMessage)] } :=
    hinv.later ⟨fun _ old hold => ⟨old, hold, rfl⟩, fun _ q hq => ⟨q, hq, rfl, rfl, rfl⟩,
      List.Subset.refl _, List.subset_append_left _ _⟩ rfl (fun _ _ hentry => Or.inl hentry)
      (fun m q message hq hphase => List.mem_append_left _ (hinv.rejected m q message hq hphase))
      hinv.fresh
  refine hlogged.putRequest hr rfl rfl rfl fun message hphase => ?_
  cases hphase
  exact List.mem_append_right _ (List.mem_singleton_self _)

theorem inv_respond (hinv : Inv s) (hr : s.requests n = some r) (hh : s.hooks r.hook = some h)
    (value : JSONValue) (now : Int) :
    Inv ({ s with answers := s.answers ++ [(n, value)] }.respond n r h value now) := by
  have hext : Extends s { s with answers := s.answers ++ [(n, value)] } :=
    { hooks := fun j h hh => ⟨h, hh, rfl⟩
      requests := fun m q hq => ⟨q, hq, rfl, rfl, rfl⟩
      answers := List.subset_append_left _ _
      failures := List.Subset.refl _ }
  have hlogged : Inv { s with answers := s.answers ++ [(n, value)] } :=
    hinv.later hext rfl (fun key entry hentry => Or.inl hentry) hinv.rejected hinv.fresh
  have hsettled : Inv ({ s with answers := s.answers ++ [(n, value)] }.putRequest n
      { r with phase := .settled }) :=
    hlogged.putRequest hr rfl rfl rfl fun serverMessage hphase => by cases hphase
  unfold HistoryHooks.respond
  split
  next => exact hsettled
  next =>
    split
    next => exact hlogged.reject hr none
    next =>
      have hanswered : ∀ cache, Answered
          { ({ s with answers := s.answers ++ [(n, value)] }.putRequest n
              { r with phase := .settled }) with cache } r.serverID r.range value := fun cache =>
        ⟨n, { r with phase := .settled }, (requests_putRequest n).trans (if_pos rfl), rfl, rfl,
          List.mem_append_right _ (List.mem_singleton_self _)⟩
      have hcached : Inv { ({ s with answers := s.answers ++ [(n, value)] }.putRequest n
          { r with phase := .settled }) with
            cache := s.cache.insert (cacheKey r.serverID r.range) { cachedAt := now, data := value } } := by
        refine hsettled.later ⟨fun _ old hold => ⟨old, hold, rfl⟩, fun _ q hq => ⟨q, hq, rfl, rfl, rfl⟩,
          List.Subset.refl _, List.Subset.refl _⟩ rfl (fun key entry hentry => ?_) hsettled.rejected
          hsettled.fresh
        have hlookup := (Map.lookup_insert _ _ _ _).symm.trans hentry
        split at hlookup
        next heq =>
          cases hlookup
          exact Or.inr ⟨r.serverID, r.range, heq, hanswered _⟩
        next => exact Or.inl hlookup
      refine hcached.setState hh rfl rfl rfl ⟨fun d hd => ?_, (fun m hm => by cases hm),
        fun hl => by cases hl⟩
      cases hd
      exact ⟨r.serverID, r.range, rfl, hanswered _⟩

theorem inv_caught (hinv : Inv s) (hr : s.requests n = some r) (hh : s.hooks r.hook = some h)
    {serverMessage : Option String} (hphase : r.phase = .rejected serverMessage) :
    Inv (s.caught n r h serverMessage) := by
  have hsettled : Inv (s.putRequest n { r with phase := .settled }) :=
    hinv.putRequest hr rfl rfl rfl fun serverMessage hphase => by cases hphase
  unfold HistoryHooks.caught
  dsimp only
  split
  next => exact hsettled
  next =>
    refine hsettled.setState hh rfl rfl rfl ⟨(fun d hd => by cases hd), fun m hm => ?_,
      fun hl => by cases hl⟩
    cases hm
    refine ⟨r.serverID, r.range, rfl, n, { r with phase := .settled }, serverMessage, ?_, rfl, rfl,
      hinv.rejected n r serverMessage hr hphase, rfl⟩
    exact (requests_putRequest n).trans (if_pos rfl)

theorem mounted?_some (hm : s.mounted? i = some h) : s.hooks i = some h :=
  (Option.filter_eq_some_iff.mp hm).1

/-- A queued state becomes the state. -/
private theorem inv_takeState (hinv : Inv s) (i : Nat) : Inv (s.step (.takeState i)) := by
  simp only [step]
  split
  next => exact hinv
  next h hm =>
    have hh := mounted?_some hm
    split
    next => exact hinv
    next state states hstates =>
      have hfirst : ∀ old, s.hooks i = some old →
          ({ h with state, states } : HistoryHook).first = old.first := fun old hold => by
        rw [hh] at hold
        cases hold
        rfl
      have hsound : ∀ st ∈ state :: states, (s.put i { h with state, states }).Sound i st :=
        fun st hmem => (hinv.states i h st hh (hstates ▸ hmem)).mono (extends_put hfirst)
      exact hinv.put hfirst (hsound state List.mem_cons_self)
        fun st hmem => hsound st (List.mem_cons_of_mem state hmem)

/-- A look at the cache takes out what has expired, and puts nothing in. -/
private theorem lookup_view {h : HistoryHook} {cache : HistoryCache} {serverID : Int}
    {range : Option HistoryRange} {now : Int} {key : String} {entry : CacheEntry}
    (hentry : AList.lookup key (h.view cache serverID range now).2 = some entry) :
    AList.lookup key cache = some entry := by
  unfold HistoryHook.view at hentry
  split at hentry
  next => exact hentry
  next =>
    dsimp only at hentry
    split at hentry
    next => exact lookup_cachedHistory hentry
    next => exact hentry

private theorem inv_render (hinv : Inv s) (i : Nat) (serverID : Int) (range : Option HistoryRange)
    (now : Int) (commits : Bool) : Inv (s.step (.render i serverID range now commits)) := by
  simp only [step]
  split
  next => exact hinv
  next h hm =>
    have hcache : Inv { s with cache := (h.view s.cache serverID range now).2 } :=
      hinv.shrink fun _ _ => lookup_view
    split
    next => exact hcache.keep (mounted?_some hm) rfl rfl rfl
    next => exact hcache

/-- `retry` forgets the cached data of the selection. -/
private theorem inv_retry (hinv : Inv s) (i : Nat) (serverID : Int) (range : Option HistoryRange) :
    Inv (s.step (.retry i serverID range)) := by
  simp only [step]
  split
  next h range hh =>
    have hkept : Inv (s.put i { h with attempts := h.attempts + 1 }) := hinv.keep hh rfl rfl rfl
    refine hkept.shrink fun k entry hentry => ?_
    rw [Map.lookup_erase] at hentry
    split at hentry
    next => cases hentry
    next => exact hentry
  next => exact hinv

theorem inv_step (hinv : Inv s) (a : Action) : Inv (s.step a) := by
  cases a with
  | mount i serverID range now later =>
    cases hi : s.hooks i with
    | none => exact inv_mount hinv hi serverID range now later
    | some old =>
      simp only [step, hi]
      exact hinv
  | takeState i => exact inv_takeState hinv i
  | takeAttempt i =>
    simp only [step]
    split
    next => exact hinv
    next h hm =>
      split
      next => exact hinv
      next => exact hinv.keep (mounted?_some hm) rfl rfl rfl
  | render i serverID range now commits => exact inv_render hinv i serverID range now commits
  | effect i now again =>
    simp only [step]
    split
    next => exact hinv
    next h hm =>
      split
      next => exact hinv
      next =>
        refine inv_runEffect (hinv.cleanup h) ?_ now
        rw [hooks_cleanup]
        exact mounted?_some hm
  | unmount i =>
    simp only [step]
    split
    next => exact hinv
    next h hm =>
      have hh : (s.cleanup h).hooks i = some h := by
        rw [hooks_cleanup]
        exact mounted?_some hm
      exact (hinv.cleanup h).keep hh rfl rfl rfl
  | retry i serverID range => exact inv_retry hinv i serverID range
  | respond n value now =>
    simp only [step]
    split
    next => exact hinv
    next r hr =>
      split
      next h _ hh => exact inv_respond hinv hr hh value now
      next => exact hinv
  | fail n serverMessage =>
    simp only [step]
    split
    next => exact hinv
    next r hr =>
      split
      next => exact hinv.reject hr serverMessage
      next => exact hinv
  | caught n =>
    simp only [step]
    split
    next => exact hinv
    next r hr =>
      split
      next serverMessage h hphase hh => exact inv_caught hinv hr hh hphase
      next => exact hinv

theorem inv_start : Inv start where
  cache key entry hentry := by cases hentry
  state i h hh := by cases hh
  states i h st hh := by cases hh
  rejected n r serverMessage hr := by cases hr
  fresh _ _ := rfl

end Steps

/-! ## Renders -/

section Renders

variable {s : HistoryHooks} {i : Nat} {h : HistoryHook}

/-- A render reads the state if its key is the selection's, and else the cache under that key. -/
theorem Inv.view (hinv : Inv s) (hh : s.hooks i = some h) (serverID : Int)
    (range : Option HistoryRange) (now : Int) :
    s.Belongs i h serverID range (h.view s.cache serverID range now).1 := by
  cases range with
  | none =>
    exact ⟨(fun d hd => by cases hd), (fun m hm => by cases hm), (fun hl => by cases hl), fun _ => rfl⟩
  | some range =>
    by_cases hkey : h.state.key = some (cacheKey serverID range)
    · have hview : (h.view s.cache serverID (some range) now).1 =
          { loading := h.state.loading, error := h.state.error, data := h.state.data } := by
        unfold HistoryHook.view
        dsimp only
        rw [if_neg (not_not.mpr hkey)]
      have hsound := hinv.state i h hh
      rw [hview]
      refine ⟨fun d hd => ?_, fun m hm => ?_, fun hl => ?_, fun hnone => by cases hnone⟩
      · obtain ⟨serverID', range', hkey', hanswered⟩ := hsound.data d hd
        obtain ⟨rfl, rfl⟩ := cacheKey_inj (Option.some.inj (hkey.symm.trans hkey'))
        exact ⟨range, rfl, hanswered⟩
      · obtain ⟨serverID', range', hkey', hfailed⟩ := hsound.error m hm
        obtain ⟨rfl, rfl⟩ := cacheKey_inj (Option.some.inj (hkey.symm.trans hkey'))
        exact ⟨range, rfl, hfailed⟩
      · obtain ⟨hdata, herror, serverID', range', hkey', hbegun⟩ := hsound.loading hl
        obtain ⟨rfl, rfl⟩ := cacheKey_inj (Option.some.inj (hkey.symm.trans hkey'))
        exact ⟨range, rfl, hdata, herror, Or.inr hbegun⟩
    · have hview : (h.view s.cache serverID (some range) now).1 =
          { loading := (cachedHistory s.cache now (cacheKey serverID range)).1.isNone, error := none
            data := (cachedHistory s.cache now (cacheKey serverID range)).1 } := by
        unfold HistoryHook.view
        dsimp only
        rw [if_pos hkey]
      rw [hview]
      refine ⟨fun d hd => ?_, (fun m hm => by cases hm), fun hl => ?_, fun hnone => by cases hnone⟩
      · obtain ⟨serverID', range', hkey', hanswered⟩ := hinv.cached (fun _ _ hentry => hentry) hd
        obtain ⟨rfl, rfl⟩ := cacheKey_inj hkey'
        exact ⟨range, rfl, hanswered⟩
      · exact ⟨range, rfl, Option.isNone_iff_eq_none.mp hl, rfl, Or.inl hkey⟩

/-- **What every render shows belongs to its selection**, in every run, for every instance, every
selection it is rendered with and every reading of the clock. -/
theorem shown_belongs (as : List Action) (hh : (run step start as).hooks i = some h)
    (serverID : Int) (range : Option HistoryRange) (now : Int) :
    (run step start as).Belongs i h serverID range
      (h.view (run step start as).cache serverID range now).1 := by
  have hinv : Inv (run step start as) :=
    run_invariant (fun (s : HistoryHooks) a (h : Inv s) => inv_step h a) inv_start as
  exact hinv.view hh serverID range now

end Renders

/-- The answer for an empty minute. -/
def emptyHistory : JSONValue :=
  .object [("fromUnix", .number (some 600)), ("toUnix", .number (some 600)), ("points", .array [])]

/-- A server's day is requested, then another server is selected, then the answer arrives. -/
def lateAnswer : List Action :=
  [.mount 0 7 (some .day) 0 0, .effect 0 0 false, .takeState 0, .render 0 8 (some .day) 1 true,
    .respond 0 emptyHistory 2, .takeState 0]

/-- It is shown for its own server, and not for the other one. -/
theorem lateAnswer_belongs :
    ∃ h, (run step start lateAnswer).hooks 0 = some h ∧
      (h.view (run step start lateAnswer).cache 7 (some .day) 3).1.data = some emptyHistory ∧
        (h.view (run step start lateAnswer).cache 8 (some .day) 3).1.data = none ∧
          (run step start lateAnswer).Belongs 0 h 8 (some .day)
            (h.view (run step start lateAnswer).cache 8 (some .day) 3).1 :=
  ⟨_, rfl, rfl, rfl, shown_belongs lateAnswer rfl 8 (some .day) 3⟩

end HistoryHooks

end TinyProbe.Web
