import Mathlib.Data.List.Nodup

/-!
# Tables with a key

A table is a list of rows, and a column is a key when no two rows agree on it. Looking a key up
finds the row that has it (`find?_eq_some_iff`), whatever the order of the rows (`find?_perm`), and
the lookups tell what rows there are (`perm_of_find?`). The statements on a table, appending a row,
replacing one, changing rows in place and deleting rows by key, do to a lookup what they do to the
table.
-/

namespace TinyProbe.Table

variable {A K : Type*} [DecidableEq K] (key : A → K) {rows : List A} {k : K} {a : A}

/-- What is found under a key has it. -/
theorem key_of_find? (h : rows.find? (fun a => key a == k) = some a) : key a = k := by
  simpa only [beq_iff_eq] using List.find?_some h

/-- **A row is found under its key.** -/
theorem find?_of_mem (hkeys : (rows.map key).Nodup) (h : a ∈ rows) :
    rows.find? (fun b => key b == key a) = some a := by
  induction rows with
  | nil => cases h
  | cons row rows ih =>
    rw [List.map_cons, List.nodup_cons] at hkeys
    rcases List.mem_cons.mp h with rfl | hmem
    · exact List.find?_cons_of_pos (beq_self_eq_true _)
    · have hne : key row ≠ key a := fun heq => hkeys.1 (heq ▸ List.mem_map_of_mem hmem)
      rw [List.find?_cons_of_neg (by simpa only [beq_iff_eq] using hne)]
      exact ih hkeys.2 hmem

theorem find?_eq_some_iff (hkeys : (rows.map key).Nodup) :
    rows.find? (fun b => key b == k) = some a ↔ a ∈ rows ∧ key a = k := by
  constructor
  · intro h
    exact ⟨List.mem_of_find?_eq_some h, key_of_find? key h⟩
  · rintro ⟨h, rfl⟩
    exact find?_of_mem key hkeys h

theorem find?_append (b : A) (hfresh : ∀ a ∈ rows, key a ≠ key b) :
    (rows ++ [b]).find? (fun a => key a == k) =
      if key b = k then some b else rows.find? (fun a => key a == k) := by
  rw [List.find?_append, List.find?_singleton]
  by_cases hk : key b = k
  · have hnone : rows.find? (fun a => key a == k) = none := by
      rw [List.find?_eq_none]
      intro a ha
      rw [beq_iff_eq, ← hk]
      exact hfresh a ha
    rw [hnone, Option.none_or, if_pos hk, if_pos (beq_iff_eq.mpr hk)]
  · rw [if_neg hk, if_neg (by rwa [beq_iff_eq]), Option.or_none]

/-- The order of the rows does not matter to a lookup. -/
theorem find?_perm {rows' : List A} (hperm : rows.Perm rows') (hkeys : (rows.map key).Nodup) :
    rows'.find? (fun a => key a == k) = rows.find? fun a => key a == k := by
  have hkeys' : (rows'.map key).Nodup := (hperm.map key).nodup_iff.mp hkeys
  refine Option.ext fun a => ?_
  rw [find?_eq_some_iff key hkeys, find?_eq_some_iff key hkeys', hperm.mem_iff]

/-- Tables in which the same is found under every key have the same rows. -/
theorem perm_of_find? {rows' : List A} (hkeys : (rows.map key).Nodup)
    (hkeys' : (rows'.map key).Nodup)
    (hfind : ∀ k, rows.find? (fun a => key a == k) = rows'.find? fun a => key a == k) :
    rows.Perm rows' := by
  refine (List.perm_ext_iff_of_nodup (List.Nodup.of_map key hkeys)
    (List.Nodup.of_map key hkeys')).mpr fun a => ?_
  have hrow : ∀ {rows : List A}, (rows.map key).Nodup →
      (a ∈ rows ↔ rows.find? (fun b => key b == key a) = some a) := fun hkeys =>
    ((find?_eq_some_iff key hkeys).trans (and_iff_left rfl)).symm
  rw [hrow hkeys, hrow hkeys', hfind]

/-- Replacing the row of a key leaves the keys alone. -/
theorem map_set (b : A) {i : Nat} (h : rows.findIdx? (fun a => key a == key b) = some i) :
    (rows.set i b).map key = rows.map key := by
  obtain ⟨hi, hkey, _⟩ := List.findIdx?_eq_some_iff_getElem.mp h
  have hlt : i < (rows.map key).length := by rwa [List.length_map]
  have hself : (rows.map key).get ⟨i, hlt⟩ = key b := by
    rw [List.get_eq_getElem, List.getElem_map]
    exact beq_iff_eq.mp hkey
  rw [List.map_set, ← hself]
  exact List.set_getElem_self hlt

theorem find?_set (b : A) {i : Nat} (h : rows.findIdx? (fun a => key a == key b) = some i) :
    (rows.set i b).find? (fun a => key a == k) =
      if key b = k then some b else rows.find? fun a => key a == k := by
  induction rows generalizing i with
  | nil => cases h
  | cons row rows ih =>
    rw [List.findIdx?_cons] at h
    split at h
    next hrow =>
      cases h
      rw [List.set_cons_zero, List.find?_cons, List.find?_cons, beq_iff_eq.mp hrow]
      split
      next hk => rw [if_pos (beq_iff_eq.mp hk)]
      next hk => rw [if_neg (beq_eq_false_iff_ne.mp hk)]
    next hrow =>
      obtain ⟨j, hj, rfl⟩ := Option.map_eq_some_iff.mp h
      rw [List.set_cons_succ, List.find?_cons, List.find?_cons, ih hj]
      split
      next hk =>
        rw [if_neg]
        rintro rfl
        exact hrow hk
      next => rfl

theorem find?_map {f : A → A} (hf : ∀ a, key (f a) = key a) :
    (rows.map f).find? (fun a => key a == k) = (rows.find? fun a => key a == k).map f := by
  rw [List.find?_map]
  have hcomp : (fun a => key a == k) ∘ f = fun a => key a == k :=
    funext fun a => by rw [Function.comp_apply, hf]
  rw [hcomp]

/-- Rows are kept or dropped by their keys. -/
theorem find?_filter (p : K → Bool) :
    (rows.filter fun a => p (key a)).find? (fun a => key a == k) =
      if p k then rows.find? fun a => key a == k else none := by
  rw [List.find?_filter]
  by_cases hp : p k = true
  · rw [if_pos hp]
    refine congrArg (fun q => rows.find? q) (funext fun a => ?_)
    by_cases ha : key a = k
    · simp [ha, hp]
    · simp [ha]
  · rw [if_neg hp, List.find?_eq_none]
    intro a _ ha
    obtain ⟨hpa, hk⟩ := of_decide_eq_true ha
    exact hp (beq_iff_eq.mp hk ▸ hpa)

theorem find?_delete (k' : K) :
    (rows.filter fun a => key a != k').find? (fun a => key a == k) =
      if k = k' then none else rows.find? (fun a => key a == k) := by
  rw [find?_filter key fun k => k != k']
  by_cases hk : k = k'
  · rw [if_pos hk, if_neg (by rw [hk, bne_self_eq_false]; exact Bool.false_ne_true)]
  · rw [if_neg hk, if_pos (bne_iff_ne.mpr hk)]

end TinyProbe.Table
