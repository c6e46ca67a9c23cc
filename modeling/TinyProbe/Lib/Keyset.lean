import Mathlib.Data.List.Sort
import Mathlib.Order.Lattice

/-!
# Keyset pages

A page is the first rows, by key, of those whose key a condition admits: what `WHERE ... ORDER BY
key LIMIT n` selects. It is strictly ascending when no two rows share a key, and a row that is
admitted and not on the page is behind a full page (`mem_page_or`). Reading on behind the last key
of a full page therefore skips nothing.

A log that only grows is read backwards, `ORDER BY key DESC`, a page at a time from below the last
key of the page before. What is below that key is what the page has left, whatever has been appended
in the meantime (`backwards_below`).
-/

namespace TinyProbe.Keyset

variable {A K : Type*} [LinearOrder K] (key : A → K)

/-- The first rows by key of those whose key is admitted. -/
def page (admits : K → Bool) (limit : Nat) (rows : List A) : List A :=
  ((rows.filter fun a => admits (key a)).insertionSort fun a b => key a ≤ key b).take limit

section Laws

variable {key} {admits : K → Bool} {limit : Nat} {rows : List A} {a : A}

/-- A page has at most as many rows as its limit. -/
theorem length_page_le : (page key admits limit rows).length ≤ limit :=
  List.length_take_le limit _

/-- Its rows are of the table, and admitted. -/
theorem mem_of_mem_page (h : a ∈ page key admits limit rows) :
    a ∈ rows ∧ admits (key a) = true := by
  have hsorted := List.mem_of_mem_take h
  rw [(List.perm_insertionSort _ _).mem_iff, List.mem_filter] at hsorted
  exact hsorted

/-- The rows admitted, by key. -/
theorem pairwise_sorted (hkeys : (rows.map key).Nodup) :
    ((rows.filter fun a => admits (key a)).insertionSort fun a b => key a ≤ key b).Pairwise
      fun a b => key a < key b := by
  have htotal : Std.Total fun a b : A => key a ≤ key b := ⟨fun a b => le_total (key a) (key b)⟩
  have htrans : IsTrans A fun a b => key a ≤ key b := ⟨fun _ _ _ => le_trans⟩
  have hsorted := List.pairwise_insertionSort (fun a b : A => key a ≤ key b)
    (rows.filter fun a => admits (key a))
  have hnodup : (((rows.filter fun a => admits (key a)).insertionSort
      fun a b => key a ≤ key b).map key).Nodup := by
    apply (((List.perm_insertionSort _ _).map key).nodup_iff).mpr
    exact (List.filter_sublist.map key).nodup hkeys
  exact hsorted.imp₂ (fun _ _ hle hne => lt_of_le_of_ne hle hne) (List.pairwise_map.mp hnodup)

/-- They ascend. -/
theorem pairwise_page (hkeys : (rows.map key).Nodup) :
    (page key admits limit rows).Pairwise fun a b => key a < key b :=
  (pairwise_sorted hkeys).sublist (List.take_sublist limit _)

/-- **An admitted row is on the page, or behind a full one.** -/
theorem mem_page_or (hkeys : (rows.map key).Nodup) (ha : a ∈ rows) (hadmits : admits (key a) = true) :
    a ∈ page key admits limit rows ∨
      (page key admits limit rows).length = limit ∧
        ∀ b ∈ page key admits limit rows, key b < key a := by
  have hsorted := @pairwise_sorted _ _ _ key admits rows hkeys
  have hmem : a ∈ (rows.filter fun a => admits (key a)).insertionSort fun a b => key a ≤ key b := by
    rw [(List.perm_insertionSort _ _).mem_iff, List.mem_filter]
    exact ⟨ha, hadmits⟩
  unfold page
  generalize (rows.filter fun a => admits (key a)).insertionSort
    (fun a b => key a ≤ key b) = sorted at hsorted hmem
  rw [← List.take_append_drop limit sorted] at hsorted hmem
  rcases List.mem_append.mp hmem with hmem | hmem
  · exact Or.inl hmem
  · refine Or.inr ⟨?_, fun b hb => (List.pairwise_append.mp hsorted).2.2 b hb a hmem⟩
    have hlength := List.length_pos_of_mem hmem
    rw [List.length_drop] at hlength
    rw [List.length_take, Nat.min_eq_left]
    exact Nat.le_of_lt (Nat.lt_of_sub_pos hlength)

end Laws

/-! ## Backwards -/

/-- The admitted rows of a log in key order, last first. -/
def backwards (admits : K → Bool) (log : List A) : List A :=
  (log.filter fun a => admits (key a)).reverse

section Backwards

variable {key} {admits : K → Bool} {limit : Nat} {log appended : List A} {a : A}

/-- Read backwards, an ascending log descends. -/
theorem pairwise_backwards (h : log.Pairwise fun a b => key a < key b) :
    (backwards key admits log).Pairwise fun a b => key b < key a :=
  List.pairwise_reverse.mpr (h.sublist List.filter_sublist)

/-- **Below the last row of a page** is what the page has left. -/
theorem backwards_below (hsorted : (log ++ appended).Pairwise fun a b => key a < key b)
    (hdown : ∀ k k', k < k' → admits k' = true → admits k = true)
    (hlast : ((backwards key admits log).take limit).getLast? = some a) :
    backwards key (fun k => decide (k < key a)) (log ++ appended) =
      (backwards key admits log).drop limit := by
  obtain ⟨hlog, _, hbefore⟩ := List.pairwise_append.mp hsorted
  have hpage : a ∈ (backwards key admits log).take limit := List.mem_of_getLast? hlast
  obtain ⟨hmem, hadmits⟩ := List.mem_filter.mp (List.mem_reverse.mp (List.mem_of_mem_take hpage))
  -- nothing that was appended is below, and what is below was admitted
  have happended : appended.filter (fun b => decide (key b < key a)) = [] :=
    List.filter_eq_nil_iff.mpr fun b hb hlt =>
      lt_asymm (of_decide_eq_true hlt) (hbefore a hmem b hb)
  have hlogged : log.filter (fun b => decide (key b < key a)) =
      (log.filter fun b => admits (key b)).filter fun b => decide (key b < key a) := by
    rw [List.filter_filter]
    refine List.filter_congr fun b _ => ?_
    by_cases hlt : key b < key a
    · rw [hdown _ _ hlt hadmits, Bool.and_true]
    · rw [decide_eq_false hlt, Bool.false_and]
  have hdesc := @pairwise_backwards _ _ _ key admits log hlog
  rw [backwards, List.filter_append, happended, List.append_nil, hlogged, ← List.filter_reverse]
  change (backwards key admits log).filter _ = _
  generalize backwards key admits log = rows at hdesc hpage hlast
  rw [← List.take_append_drop limit rows] at hdesc
  obtain ⟨htake, _, hbehind⟩ := List.pairwise_append.mp hdesc
  conv_lhs => rw [← List.take_append_drop limit rows, List.filter_append]
  have hnone : (rows.take limit).filter (fun b => decide (key b < key a)) = [] := by
    obtain ⟨front, hfront⟩ := List.getLast?_eq_some_iff.mp hlast
    rw [hfront] at htake ⊢
    obtain ⟨_, _, habove⟩ := List.pairwise_append.mp htake
    refine List.filter_eq_nil_iff.mpr fun b hb hlt => ?_
    rcases List.mem_append.mp hb with hb | hb
    · exact lt_asymm (of_decide_eq_true hlt) (habove b hb a List.mem_cons_self)
    · rw [List.mem_singleton.mp hb] at hlt
      exact lt_irrefl _ (of_decide_eq_true hlt)
  have hall : (rows.drop limit).filter (fun b => decide (key b < key a)) = rows.drop limit :=
    List.filter_eq_self.mpr fun b hb => decide_eq_true (hbehind a hpage b hb)
  rw [hnone, hall, List.nil_append]

end Backwards

end TinyProbe.Keyset
