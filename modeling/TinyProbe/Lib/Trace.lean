import Mathlib.Data.List.Induction

/-!
# Traces

A trace is a log that grows at its end. `Justified P` says that each of its elements meets a
condition `P` against what stood before it. A system keeps it by appending only what `P` allows, and
what is to be said of the order and the number of the elements of a trace follows from `P` alone.
-/

namespace TinyProbe.Trace

variable {A : Type*} {P : List A → A → Prop} {l : List A} {a : A}

/-- Every element meets `P` against what stands before it. -/
def Justified (P : List A → A → Prop) (l : List A) : Prop :=
  ∀ pre a post, l = pre ++ a :: post → P pre a

@[simp] theorem justified_nil : Justified P [] := by
  intro pre a post h
  exact absurd h.symm (List.append_ne_nil_of_right_ne_nil _ (List.cons_ne_nil _ _))

/-- **The rule of a trace that grows**: an element may be appended that meets `P`. -/
theorem Justified.snoc (h : Justified P l) (ha : P l a) : Justified P (l ++ [a]) := by
  intro pre b post hsplit
  rcases List.eq_nil_or_concat post with rfl | ⟨post, c, rfl⟩
  · obtain ⟨rfl, hab⟩ := List.append_inj' hsplit rfl
    cases hab
    exact ha
  · have hsplit : l ++ [a] = (pre ++ b :: post) ++ [c] := by
      rw [hsplit, List.concat_eq_append, List.append_assoc, List.cons_append]
    exact h pre b post (List.append_inj' hsplit rfl).1

/-- What comes before a justified element is justified. -/
theorem Justified.before (h : Justified P l) {pre post : List A} (hsplit : l = pre ++ post) :
    Justified P pre := by
  intro pre' b post' h'
  apply h pre' b (post' ++ post)
  rw [hsplit, h', List.append_assoc, List.cons_append]

/-- The last element of a justified trace meets `P` against the others. -/
theorem Justified.last (h : Justified P (l ++ [a])) : P l a := h l a [] rfl

/-- What may only be appended while there is none of its kind occurs at most once. -/
theorem Justified.countP_le_one {p : A → Bool} (h : Justified P l)
    (hp : ∀ pre a, P pre a → p a = true → ∀ b ∈ pre, ¬ p b = true) : l.countP p ≤ 1 := by
  induction l using List.reverseRecOn with
  | nil => exact Nat.zero_le 1
  | append_singleton l a ih =>
    have hl := ih (h.before rfl)
    rw [List.countP_append, List.countP_singleton]
    split
    next ha =>
      have hnone := List.countP_eq_zero.mpr (hp l a h.last ha)
      exact Nat.le_of_eq (congrArg (· + 1) hnone)
    next => exact hl

/-- What relates an element to everything before it relates the elements pairwise. -/
theorem Justified.pairwise {R : A → A → Prop} (h : Justified P l)
    (hp : ∀ pre a, P pre a → ∀ b ∈ pre, R b a) : l.Pairwise R := by
  induction l using List.reverseRecOn with
  | nil => exact List.Pairwise.nil
  | append_singleton l a ih =>
    rw [List.pairwise_append]
    refine ⟨ih (h.before rfl), List.pairwise_singleton R a, fun b hb c hc => ?_⟩
    rw [List.mem_singleton.mp hc]
    exact hp l a h.last b hb

/-- What relates the last element of a trace to the next, if it is transitive, relates all of its
elements to the later ones. -/
theorem Justified.pairwise_of_last {R : A → A → Prop} [IsTrans A R] (h : Justified P l)
    (hp : ∀ pre a, Justified P pre → P pre a → ∀ b, pre.getLast? = some b → R b a) :
    l.Pairwise R := by
  induction l using List.reverseRecOn with
  | nil => exact List.Pairwise.nil
  | append_singleton l a ih =>
    have hl := ih (h.before rfl)
    rw [List.pairwise_append]
    refine ⟨hl, List.pairwise_singleton R a, ?_⟩
    intro b hb c hc
    rw [List.mem_singleton.mp hc]
    rcases List.eq_nil_or_concat l with rfl | ⟨l, d, rfl⟩
    · cases hb
    · rw [List.concat_eq_append] at hb h hl
      have hlast := hp _ a (h.before rfl) h.last d (by simp)
      rcases List.mem_append.mp hb with hb | hb
      · exact IsTrans.trans _ _ _ ((List.pairwise_append.mp hl).2.2 b hb d List.mem_cons_self) hlast
      · rw [List.mem_singleton.mp hb]
        exact hlast

section Spaced

variable {f : A → Int} {gap : Nat}

/-- What comes at least a gap apart takes that many gaps. -/
theorem length_of_spaced (h : (a :: l).Pairwise fun a b => f a + gap ≤ f b) :
    ∃ b ∈ a :: l, f a + l.length * gap ≤ f b := by
  induction l generalizing a with
  | nil => exact ⟨a, List.mem_cons_self, by simp⟩
  | cons c l ih =>
    obtain ⟨b, hb, hle⟩ := ih (List.pairwise_cons.mp h).2
    refine ⟨b, List.mem_cons_of_mem _ hb, ?_⟩
    have hac := (List.pairwise_cons.mp h).1 c List.mem_cons_self
    rw [List.length_cons, Int.natCast_add, Int.natCast_one, Int.add_mul, Int.one_mul]
    omega

/-- **A window holds no more than fit into it** of what comes at least a gap apart. -/
theorem countP_window (hgap : 0 < gap) (h : l.Pairwise fun a b => f a + gap ≤ f b) (t : Int)
    (T : Nat) : l.countP (fun a => decide (t ≤ f a ∧ f a < t + T)) ≤ T / gap + 1 := by
  rw [List.countP_eq_length_filter]
  have hfilter := h.filter fun a => decide (t ≤ f a ∧ f a < t + T)
  cases hin : l.filter fun a => decide (t ≤ f a ∧ f a < t + T) with
  | nil => exact Nat.zero_le _
  | cons a rest =>
    rw [hin] at hfilter
    have hmem : ∀ c ∈ a :: rest, t ≤ f c ∧ f c < t + T := by
      intro c hc
      rw [← hin] at hc
      exact of_decide_eq_true (List.mem_filter.mp hc).2
    obtain ⟨b, hb, hle⟩ := length_of_spaced hfilter
    have hfirst := (hmem a List.mem_cons_self).1
    have hlast := (hmem b hb).2
    have hmul : rest.length * gap ≤ T := by
      have hcast : ((rest.length * gap : Nat) : Int) = rest.length * gap := Int.natCast_mul _ _
      omega
    exact Nat.succ_le_succ ((Nat.le_div_iff_mul_le hgap).mpr hmul)

end Spaced

end TinyProbe.Trace
