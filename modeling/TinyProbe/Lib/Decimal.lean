import Mathlib.Algebra.Group.Nat.Defs
import Mathlib.Data.Char
import Mathlib.Data.List.DropRight
import Mathlib.Order.Lattice

/-!
# Decimal text in lexicographic order

Numbers written with a fixed number of digits compare as text the way they compare as numbers
(`pad_lt_pad`), also with more text behind them. A fraction without its trailing zeros does not. Two
fractions of which neither begins with the other compare like their numbers
(`terminated_lt_iff`). If one begins with the other it is the smaller number, and a terminator
above the digits makes it the larger text (`lt_of_prefix`).
-/

namespace TinyProbe.Decimal

section Order

variable {A : Type*} [LinearOrder A] {x y s t : List A}

theorem append_lt_append_of_lt (hlength : x.length = y.length) (h : x < y) : x ++ s < y ++ t := by
  induction x generalizing y with
  | nil =>
    rw [List.length_nil, eq_comm, List.length_eq_zero_iff] at hlength
    rw [hlength] at h
    exact absurd h (List.not_lt_nil _)
  | cons a x ih =>
    cases y with
    | nil => cases hlength
    | cons b y =>
      rw [List.cons_append, List.cons_append, List.cons_lt_cons_iff]
      rcases List.cons_lt_cons_iff.mp h with hab | ⟨hab, hxy⟩
      · exact Or.inl hab
      · exact Or.inr ⟨hab, ih (Nat.succ.inj hlength) hxy⟩

theorem append_left_lt_iff : x ++ s < x ++ t ↔ s < t := by
  induction x with
  | nil => rfl
  | cons a x ih => rw [List.cons_append, List.cons_append, List.cons_lt_cons_self, ih]

/-- Lists of which neither begins with the other differ before either ends. -/
theorem append_lt_append_iff (hxy : ¬ x <+: y) (hyx : ¬ y <+: x) : x ++ s < y ++ t ↔ x < y := by
  induction x generalizing y with
  | nil => exact absurd List.nil_prefix hxy
  | cons a x ih =>
    cases y with
    | nil => exact absurd List.nil_prefix hyx
    | cons b y =>
      rw [List.cons_append, List.cons_append, List.cons_lt_cons_iff, List.cons_lt_cons_iff]
      by_cases hab : a = b
      · rw [hab, List.cons_prefix_cons] at hxy hyx
        rw [ih (fun h => hxy ⟨rfl, h⟩) fun h => hyx ⟨rfl, h⟩]
      · exact ⟨Or.imp_right fun h => absurd h.1 hab, Or.imp_right fun h => absurd h.1 hab⟩

/-- Nothing is below the least letter repeated. -/
theorem not_lt_replicate {a : A} (h : ∀ c ∈ x, a ≤ c) : ¬ x < List.replicate x.length a := by
  induction x with
  | nil => exact List.not_lt_nil _
  | cons c x ih =>
    rw [List.length_cons, List.replicate_succ, List.cons_lt_cons_iff]
    rintro (hlt | ⟨_, hlt⟩)
    · exact not_lt_of_ge (h c List.mem_cons_self) hlt
    · exact ih (fun d hd => h d (List.mem_cons_of_mem _ hd)) hlt

end Order

/-! ## Numbers -/

/-- The last `w` digits of a number. -/
def pad : Nat → Nat → List Char
  | 0, _ => []
  | w + 1, n => pad w (n / 10) ++ [Nat.digitChar (n % 10)]

theorem digitChar_lt {i j : Nat} (hij : i < j) (hj : j < 10) :
    Nat.digitChar i < Nat.digitChar j := by
  have hall : ∀ j < 10, ∀ i < j, Nat.digitChar i < Nat.digitChar j := by decide
  exact hall j hj i hij

section Pad

variable {w n m : Nat} {s t : List Char}

@[simp] theorem length_pad : (pad w n).length = w := by
  induction w generalizing n with
  | zero => rfl
  | succ w ih => rw [pad, List.length_append, ih, List.length_singleton]

/-- The letters are digits. -/
theorem digit_of_mem_pad {c : Char} (h : c ∈ pad w n) : '0' ≤ c ∧ c ≤ '9' := by
  induction w generalizing n with
  | zero => cases h
  | succ w ih =>
    rcases List.mem_append.mp h with hold | hlast
    · exact ih hold
    · have hall : ∀ i < 10, '0' ≤ Nat.digitChar i ∧ Nat.digitChar i ≤ '9' := by decide
      rw [List.mem_singleton.mp hlast]
      exact hall _ (Nat.mod_lt n (by decide))

/-- **Padded numbers compare as text the way they compare as numbers.** -/
theorem pad_lt_pad (hnm : n < m) (hm : m < 10 ^ w) : pad w n < pad w m := by
  induction w generalizing n m with
  | zero =>
    rw [Nat.pow_zero] at hm
    omega
  | succ w ih =>
    rw [Nat.pow_succ] at hm
    by_cases hdiv : n / 10 = m / 10
    · rw [pad, pad, hdiv, append_left_lt_iff, List.cons_lt_cons_iff]
      exact Or.inl (digitChar_lt (by omega) (by omega))
    · refine append_lt_append_of_lt (by rw [length_pad, length_pad]) (ih ?_ ?_)
      · omega
      · omega

/-- The first field decides. -/
theorem pad_append_lt (hnm : n < m) (hm : m < 10 ^ w) : pad w n ++ s < pad w m ++ t :=
  append_lt_append_of_lt (by rw [length_pad, length_pad]) (pad_lt_pad hnm hm)

theorem pad_lt_pad_iff (hn : n < 10 ^ w) (hm : m < 10 ^ w) : pad w n < pad w m ↔ n < m := by
  refine ⟨fun h => ?_, fun h => pad_lt_pad h hm⟩
  by_contra hnot
  rcases Nat.lt_or_eq_of_le (Nat.le_of_not_lt hnot) with hlt | rfl
  · exact List.lt_asymm h (pad_lt_pad hlt hn)
  · exact List.lt_irrefl _ h

end Pad

/-! ## Fractions -/

/-- The digits of a fraction of `w` digits, without the trailing zeros. -/
def fraction (w n : Nat) : List Char := (pad w n).rdropWhile (· == '0')

section Fraction

variable {w n m : Nat}

/-- The zeros come back. -/
theorem pad_eq_fraction (w n : Nat) :
    pad w n = fraction w n ++ List.replicate (w - (fraction w n).length) '0' := by
  have hsplit : fraction w n ++ (pad w n).rtakeWhile (· == '0') = pad w n :=
    List.rdropWhile_append_rtakeWhile
  have hzeros : (pad w n).rtakeWhile (· == '0') =
      List.replicate ((pad w n).rtakeWhile (· == '0')).length '0' := by
    refine List.eq_replicate_iff.mpr ⟨rfl, fun c hc => ?_⟩
    have hzero := List.mem_rtakeWhile_imp hc
    exact eq_of_beq hzero
  have hlength := congrArg List.length hsplit
  rw [List.length_append, length_pad] at hlength
  rw [← Nat.eq_sub_of_add_eq' hlength, ← hzeros, hsplit]

theorem digit_of_mem_fraction {c : Char} (h : c ∈ fraction w n) : '0' ≤ c ∧ c ≤ '9' :=
  digit_of_mem_pad ((List.rdropWhile_prefix _ _).subset h)

theorem fraction_inj (hn : n < 10 ^ w) (hm : m < 10 ^ w) (h : fraction w n = fraction w m) :
    n = m := by
  have hpad : pad w n = pad w m := by rw [pad_eq_fraction w n, h, ← pad_eq_fraction w m]
  by_contra hne
  rcases Nat.lt_or_gt_of_ne hne with hlt | hlt
  · exact List.lt_irrefl _ (hpad ▸ pad_lt_pad hlt hm)
  · exact List.lt_irrefl _ (hpad ▸ pad_lt_pad hlt hn)

/-- **Fractions of which neither begins with the other compare like their numbers.** -/
theorem terminated_lt_iff (hn : n < 10 ^ w) (hm : m < 10 ^ w)
    (hnm : ¬ fraction w n <+: fraction w m) (hmn : ¬ fraction w m <+: fraction w n)
    (s t : List Char) : fraction w n ++ s < fraction w m ++ t ↔ n < m := by
  rw [append_lt_append_iff hnm hmn, ← pad_lt_pad_iff hn hm, pad_eq_fraction w n,
    pad_eq_fraction w m, append_lt_append_iff hnm hmn]

/-- **A fraction another begins with** is the smaller number, and the larger text in front of a
terminator above the digits. -/
theorem lt_of_prefix (hn : n < 10 ^ w) (hm : m < 10 ^ w) (hne : n ≠ m)
    (h : fraction w n <+: fraction w m) {z : Char} (hz : '9' < z) :
    n < m ∧ fraction w m ++ [z] < fraction w n ++ [z] := by
  obtain ⟨rest, hrest⟩ := h
  cases rest with
  | nil =>
    rw [List.append_nil] at hrest
    exact absurd (fraction_inj hn hm hrest) hne
  | cons d rest =>
    have hdigit : ∀ c ∈ d :: rest, '0' ≤ c ∧ c ≤ '9' := fun c hc =>
      digit_of_mem_fraction (hrest ▸ List.mem_append_right _ hc)
    constructor
    · by_contra hnot
      have hlt := pad_lt_pad (Nat.lt_of_le_of_ne (Nat.le_of_not_lt hnot) (Ne.symm hne)) hn
      rw [pad_eq_fraction w n, pad_eq_fraction w m, ← hrest, List.append_assoc,
        append_left_lt_iff] at hlt
      -- behind the common part: digits against as many zeros
      generalize hz : w - (fraction w n ++ d :: rest).length = zeros at hlt
      have hlength : ((d :: rest) ++ List.replicate zeros '0').length =
          w - (fraction w n).length := by
        have hfull := congrArg List.length (pad_eq_fraction w m)
        rw [← hrest, length_pad, hz, List.append_assoc, List.length_append] at hfull
        exact Nat.eq_sub_of_add_eq' hfull.symm
      rw [← hlength] at hlt
      refine not_lt_replicate (fun c hc => ?_) hlt
      rcases List.mem_append.mp hc with hc | hc
      · exact (hdigit c hc).1
      · rw [List.eq_of_mem_replicate hc]
    · rw [← hrest, List.append_assoc, append_left_lt_iff, List.cons_append, List.cons_lt_cons_iff]
      exact Or.inl (lt_of_le_of_lt (hdigit d List.mem_cons_self).2 hz)

end Fraction

end TinyProbe.Decimal
