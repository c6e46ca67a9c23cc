import Mathlib.Data.List.Induction
import Mathlib.Data.List.Nodup
import Mathlib.Order.Lattice

/-!
# The newest element of a list

`Newest rank l a` says that `a` has the greatest rank in `l` and is the last element of that rank.
There is at most one, appending keeps or replaces it, and where the ranks are distinct the order of
the list does not matter.
-/

namespace TinyProbe.Ranked

variable {A T : Type*} [LinearOrder T] {rank : A → T} {l l' : List A} {a b : A}

/-- `a` has the greatest rank, and no later element has it too. -/
def Newest (rank : A → T) (l : List A) (a : A) : Prop :=
  ∃ pre post, l = pre ++ a :: post ∧ (∀ b ∈ pre, rank b ≤ rank a) ∧ ∀ b ∈ post, rank b < rank a

/-- The newest element is in the list. -/
theorem Newest.mem (h : Newest rank l a) : a ∈ l := by
  obtain ⟨pre, post, rfl, _⟩ := h
  exact List.mem_append_right _ List.mem_cons_self

/-- No element has a higher rank. -/
theorem Newest.rank_le (h : Newest rank l a) (hb : b ∈ l) : rank b ≤ rank a := by
  obtain ⟨pre, post, rfl, hpre, hpost⟩ := h
  rcases List.mem_append.mp hb with hb | hb
  · exact hpre b hb
  · rcases List.mem_cons.mp hb with rfl | hb
    · exact le_refl _
    · exact le_of_lt (hpost b hb)

/-- An element that nothing is newer than becomes the newest when it is appended. -/
theorem newest_snoc (h : ∀ b ∈ l, rank b ≤ rank a) : Newest rank (l ++ [a]) a :=
  ⟨l, [], rfl, h, fun _ hb => absurd hb List.not_mem_nil⟩

/-- An older one leaves the newest as it is. -/
theorem Newest.snoc (h : Newest rank l a) (hlt : rank b < rank a) : Newest rank (l ++ [b]) a := by
  obtain ⟨pre, post, rfl, hpre, hpost⟩ := h
  refine ⟨pre, post ++ [b], by rw [List.append_assoc, List.cons_append], hpre, fun c hc => ?_⟩
  rcases List.mem_append.mp hc with hc | hc
  · exact hpost c hc
  · rw [List.mem_singleton.mp hc]
    exact hlt

/-- A list that is not empty has a newest element. -/
theorem exists_newest (rank : A → T) (h : l ≠ []) : ∃ a, Newest rank l a := by
  induction l using List.reverseRecOn with
  | nil => exact absurd rfl h
  | append_singleton l b ih =>
    by_cases hl : l = []
    · exact ⟨b, newest_snoc fun c hc => by rw [hl] at hc; exact absurd hc List.not_mem_nil⟩
    · obtain ⟨a, ha⟩ := ih hl
      rcases lt_or_ge (rank b) (rank a) with hlt | hle
      · exact ⟨a, ha.snoc hlt⟩
      · exact ⟨b, newest_snoc fun c hc => le_trans (ha.rank_le hc) hle⟩

/-- It has only one. -/
theorem Newest.unique (ha : Newest rank l a) (hb : Newest rank l b) : a = b := by
  obtain ⟨pre, post, hl, hpre, hpost⟩ := ha
  obtain ⟨pre', post', hl', hpre', hpost'⟩ := hb
  rw [hl] at hl'
  rcases List.append_eq_append_iff.mp hl' with ⟨mid, rfl, hmid⟩ | ⟨mid, rfl, hmid⟩
  · cases mid with
    | nil => exact (List.cons.inj hmid).1
    | cons c mid =>
      obtain ⟨rfl, rfl⟩ := List.cons.inj hmid
      have hlt := hpost b (List.mem_append_right _ List.mem_cons_self)
      exact absurd hlt (not_lt_of_ge (hpre' a (List.mem_append_right _ List.mem_cons_self)))
  · cases mid with
    | nil => exact (List.cons.inj hmid).1.symm
    | cons c mid =>
      obtain ⟨rfl, rfl⟩ := List.cons.inj hmid
      have hlt := hpost' a (List.mem_append_right _ List.mem_cons_self)
      exact absurd hlt (not_lt_of_ge (hpre b (List.mem_append_right _ List.mem_cons_self)))

/-- **Among distinct ranks the newest does not depend on the order.** -/
theorem Newest.perm (h : Newest rank l a) (hperm : l.Perm l') (hnodup : (l.map rank).Nodup) :
    Newest rank l' a := by
  obtain ⟨pre, post, hl'⟩ := List.append_of_mem (hperm.mem_iff.mp h.mem)
  have hle : ∀ b ∈ l', rank b ≤ rank a := fun b hb => h.rank_le (hperm.mem_iff.mpr hb)
  have hnodup' : (l'.map rank).Nodup := (hperm.map rank).nodup_iff.mp hnodup
  refine ⟨pre, post, hl', fun b hb => hle b ?_, fun b hb => lt_of_le_of_ne (hle b ?_) ?_⟩
  · rw [hl']
    exact List.mem_append_left _ hb
  · rw [hl']
    exact List.mem_append_right _ (List.mem_cons_of_mem _ hb)
  · intro heq
    rw [hl', List.map_append, List.map_cons] at hnodup'
    have hcons := (List.nodup_append.mp hnodup').2.1
    exact (List.nodup_cons.mp hcons).1 (heq ▸ List.mem_map_of_mem hb)

end TinyProbe.Ranked
