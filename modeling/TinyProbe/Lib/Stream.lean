import Mathlib.Data.List.Induction

/-!
# Streams of keyed elements

A log that grows at its end and whose elements belong to keys: the last element of a key
(`lastOf`), its rank (`latest`, 0 when there is none), and logs whose ranks never decrease within a
key (`Ascending`). In an ascending log the last element of a key has the largest rank, so comparing
with `latest` is enough to append. `Follows P Q` says of a log that within a key every element with
`P` comes right after one with `Q`. Whoever has seen a log up to some place knows the last element of
a key as long as the log is `Quiet` about the key from there on.
-/

namespace TinyProbe.Stream

variable {A K : Type*} [DecidableEq K] (key : A → K) (rank : A → Nat)

/-- The last element of a key. -/
def lastOf (k : K) (l : List A) : Option A :=
  l.foldl (fun last a => if key a = k then some a else last) none

/-- The rank of the last element of a key, 0 when there is none. -/
def latest (k : K) (l : List A) : Nat := (lastOf key k l).elim 0 rank

/-- Within each key the ranks never decrease. -/
def Ascending (l : List A) : Prop := l.Pairwise fun a b => key a = key b → rank a ≤ rank b

/-- Every element with `P` has one with `Q` right before it in its key. -/
def Follows (P Q : A → Prop) (l : List A) : Prop :=
  ∀ pre a post, l = pre ++ a :: post → P a → ∃ b, lastOf key (key a) pre = some b ∧ Q b

/-- No element of the key stands from place `i` on and before place `j`. -/
def Quiet (k : K) (l : List A) (i j : Nat) : Prop :=
  ∀ n a, i ≤ n → n < j → l[n]? = some a → key a ≠ k

section Laws

variable {key rank} {l : List A} {k : K}

@[simp] theorem lastOf_nil : lastOf key k [] = none := rfl

/-- The last element of a key is the new one, if it has the key. -/
theorem lastOf_snoc (a : A) :
    lastOf key k (l ++ [a]) = if key a = k then some a else lastOf key k l := by
  simp only [lastOf, List.foldl_append, List.foldl_cons, List.foldl_nil]

@[simp] theorem latest_nil : latest key rank k [] = 0 := rfl

/-- The latest rank of a key is that of the new element, if it has the key. -/
theorem latest_snoc (a : A) :
    latest key rank k (l ++ [a]) = if key a = k then rank a else latest key rank k l := by
  unfold latest
  rw [lastOf_snoc]
  split
  next => rfl
  next => rfl

/-- The last element of a key is in the list and has the key. -/
theorem lastOf_mem {a : A} (h : lastOf key k l = some a) : a ∈ l ∧ key a = k := by
  induction l using List.reverseRecOn with
  | nil => cases h
  | append_singleton l b ih =>
    rw [lastOf_snoc] at h
    split at h
    next hk =>
      cases h
      exact ⟨List.mem_append_right _ List.mem_cons_self, hk⟩
    next => exact ⟨List.mem_append_left _ (ih h).1, (ih h).2⟩

/-- The last element of a key is that of the later part that has one. -/
theorem lastOf_append (l l' : List A) :
    lastOf key k (l ++ l') = (lastOf key k l').or (lastOf key k l) := by
  induction l' using List.reverseRecOn with
  | nil => rw [List.append_nil, lastOf_nil, Option.none_or]
  | append_singleton l' a ih =>
    rw [← List.append_assoc, lastOf_snoc, lastOf_snoc, ih]
    split
    next => rw [Option.some_or]
    next => rfl

/-- Elements of other keys leave the last one of a key. -/
theorem lastOf_append_of_ne {l' : List A} (h : ∀ a ∈ l', key a ≠ k) :
    lastOf key k (l ++ l') = lastOf key k l := by
  induction l' using List.reverseRecOn with
  | nil => rw [List.append_nil]
  | append_singleton l' a ih =>
    rw [← List.append_assoc, lastOf_snoc, if_neg (h a (List.mem_append_right _ List.mem_cons_self))]
    exact ih fun b hb => h b (List.mem_append_left _ hb)

/-- A key has no last element when no element has it. -/
theorem lastOf_eq_none_iff : lastOf key k l = none ↔ ∀ a ∈ l, key a ≠ k := by
  induction l using List.reverseRecOn with
  | nil => simp only [lastOf_nil, List.not_mem_nil, false_imp_iff, implies_true]
  | append_singleton l b ih =>
    rw [lastOf_snoc, List.forall_mem_append, List.forall_mem_singleton]
    split
    next hk => exact ⟨(fun h => by cases h), fun h => absurd hk h.2⟩
    next hk => exact ⟨fun h => ⟨ih.mp h, hk⟩, fun h => ih.mpr h.1⟩

/-- Of elements with distinct keys, each is the last of its key. -/
theorem lastOf_append_of_mem {l' : List A} (hkeys : (l'.map key).Nodup) {a : A} (ha : a ∈ l') :
    lastOf key (key a) (l ++ l') = some a := by
  induction l' using List.reverseRecOn with
  | nil => cases ha
  | append_singleton l' b ih =>
    rw [List.map_append, List.nodup_append] at hkeys
    rw [← List.append_assoc, lastOf_snoc]
    rcases List.mem_append.mp ha with ha | ha
    · have hne : key b ≠ key a := fun heq =>
        hkeys.2.2 (key a) (List.mem_map_of_mem ha) (key b) List.mem_cons_self heq.symm
      rw [if_neg hne]
      exact ih hkeys.1 ha
    · rw [List.mem_singleton.mp ha, if_pos rfl]

/-- The last element of a key has none of the key behind it. -/
theorem lastOf_split {a : A} (h : lastOf key k l = some a) :
    ∃ pre post, l = pre ++ a :: post ∧ key a = k ∧ ∀ b ∈ post, key b ≠ k := by
  induction l using List.reverseRecOn with
  | nil => cases h
  | append_singleton l c ih =>
    rw [lastOf_snoc] at h
    split at h
    next hk =>
      cases h
      exact ⟨l, [], rfl, hk, fun b hb => absurd hb List.not_mem_nil⟩
    next hk =>
      obtain ⟨pre, post, rfl, hka, hpost⟩ := ih h
      refine ⟨pre, post ++ [c], by rw [List.append_assoc, List.cons_append], hka, ?_⟩
      intro b hb
      rcases List.mem_append.mp hb with hb | hb
      · exact hpost b hb
      · rw [List.mem_singleton.mp hb]
        exact hk

/-- The last element of a key is still the last of what is left of the log, if it is left. -/
theorem lastOf_of_sublist {l' : List A} (hsub : l'.Sublist l) (hnodup : l.Nodup) {a : A}
    (h : lastOf key k l = some a) (ha : a ∈ l') : lastOf key k l' = some a := by
  obtain ⟨pre, post, rfl, hk, hpost⟩ := lastOf_split h
  obtain ⟨l₁, l₂, rfl, hpre, hsuf⟩ := List.sublist_append_iff.mp hsub
  obtain ⟨_, hnodup₂, hdisjoint⟩ := List.nodup_append.mp hnodup
  rw [lastOf_append]
  -- `a` stands in the later part only, and there first
  have ha₂ : a ∈ l₂ := by
    rcases List.mem_append.mp ha with ha | ha
    · exact absurd rfl (hdisjoint a (hpre.subset ha) a List.mem_cons_self)
    · exact ha
  rcases List.sublist_cons_iff.mp hsuf with hskip | ⟨l₃, rfl, hrest⟩
  · exact absurd (hskip.subset ha₂) (List.nodup_cons.mp hnodup₂).1
  · have hnone : lastOf key k l₃ = none := by
      cases hl : lastOf key k l₃ with
      | none => rfl
      | some b => exact absurd (lastOf_mem hl).2 (hpost b (hrest.subset (lastOf_mem hl).1))
    rw [← List.singleton_append, lastOf_append, hnone, Option.none_or, ← List.nil_append [a],
      lastOf_snoc, if_pos hk, Option.some_or]

/-- Whatever relates each element to the later ones relates it to the last of its key. -/
theorem rel_lastOf {R : A → A → Prop} (h : l.Pairwise R) {a b : A} (hlast : lastOf key k l = some b)
    (ha : a ∈ l) (hk : key a = k) : a = b ∨ R a b := by
  induction l using List.reverseRecOn with
  | nil => cases ha
  | append_singleton l c ih =>
    obtain ⟨hl, _, hc⟩ := List.pairwise_append.mp h
    rw [lastOf_snoc] at hlast
    rcases List.mem_append.mp ha with hmem | hmem
    · split at hlast
      next => exact Or.inr (Option.some.inj hlast ▸ hc a hmem c List.mem_cons_self)
      next => exact ih hl hlast hmem
    · rw [List.mem_singleton.mp hmem] at hk ⊢
      rw [if_pos hk] at hlast
      exact Or.inl (Option.some.inj hlast)

/-- A positive `latest` is the rank of an element. -/
theorem exists_of_latest_pos (h : 0 < latest key rank k l) :
    ∃ a, lastOf key k l = some a ∧ rank a = latest key rank k l := by
  unfold latest at h ⊢
  cases hl : lastOf key k l with
  | none => rw [hl] at h; exact absurd h (Nat.lt_irrefl 0)
  | some a => exact ⟨a, rfl, rfl⟩

/-- What bounds the rank of every element of a key bounds `latest`. -/
theorem latest_le {n : Nat} (h : ∀ a ∈ l, key a = k → rank a ≤ n) : latest key rank k l ≤ n := by
  unfold latest
  cases hl : lastOf key k l with
  | none => exact Nat.zero_le n
  | some a => exact h a (lastOf_mem hl).1 (lastOf_mem hl).2

omit [DecidableEq K] in
@[simp] theorem ascending_nil : Ascending key rank [] := List.Pairwise.nil

/-- Where ranks ascend, the latest is the largest. -/
theorem Ascending.le_latest (h : Ascending key rank l) {a : A} (ha : a ∈ l) :
    rank a ≤ latest key rank (key a) l := by
  induction l using List.reverseRecOn with
  | nil => cases ha
  | append_singleton l b ih =>
    obtain ⟨hl, _, hb⟩ := List.pairwise_append.mp h
    rw [latest_snoc]
    split
    next hk =>
      rcases List.mem_append.mp ha with ha | ha
      · exact hb a ha b List.mem_cons_self hk.symm
      · exact Nat.le_of_eq (congrArg rank (List.mem_singleton.mp ha))
    next hk =>
      rcases List.mem_append.mp ha with ha | ha
      · exact ih hl ha
      · exact absurd (by rw [List.mem_singleton.mp ha]) hk

/-- Comparing with the last element of its key is enough to append. -/
theorem Ascending.snoc (h : Ascending key rank l) {a : A}
    (ha : latest key rank (key a) l ≤ rank a) : Ascending key rank (l ++ [a]) := by
  refine List.pairwise_append.mpr ⟨h, List.pairwise_singleton _ _, fun b hb c hc hk => ?_⟩
  rw [List.mem_singleton.mp hc] at hk ⊢
  have := h.le_latest hb
  rw [hk] at this
  exact Nat.le_trans this ha

omit [DecidableEq K] in
/-- A quiet stretch is quiet in each part of it. -/
theorem Quiet.mono {i i' j j' : Nat} (h : Quiet key k l i j) (hi : i ≤ i') (hj : j' ≤ j) :
    Quiet key k l i' j' := fun n a hin hnj =>
  h n a (Nat.le_trans hi hin) (Nat.lt_of_lt_of_le hnj hj)

omit [DecidableEq K] in
/-- An empty stretch is quiet. -/
theorem quiet_self (i : Nat) : Quiet key k l i i := fun _ _ hin hni =>
  absurd hin (Nat.not_le_of_gt hni)

omit [DecidableEq K] in
/-- What is appended lies behind every place before the end. -/
theorem quiet_append {l' : List A} {i j : Nat} (hj : j ≤ l.length) :
    Quiet key k (l ++ l') i j ↔ Quiet key k l i j := by
  have hget : ∀ n, n < j → (l ++ l')[n]? = l[n]? := fun n hnj =>
    List.getElem?_append_left (Nat.lt_of_lt_of_le hnj hj)
  exact ⟨fun h n a hin hnj ha => h n a hin hnj ((hget n hnj).trans ha),
    fun h n a hin hnj ha => h n a hin hnj ((hget n hnj).symm.trans ha)⟩

/-- A stretch is quiet when the key has no last element in it. -/
theorem quiet_iff {i j : Nat} : Quiet key k l i j ↔ lastOf key k ((l.take j).drop i) = none := by
  rw [lastOf_eq_none_iff]
  constructor
  · intro h a ha
    obtain ⟨n, hn⟩ := List.mem_iff_getElem?.mp ha
    rw [List.getElem?_drop, List.getElem?_take] at hn
    split at hn
    next hlt => exact h (i + n) a (Nat.le_add_right i n) hlt hn
    next => cases hn
  · intro h n a hin hnj hn
    refine h a (List.mem_iff_getElem?.mpr ⟨n - i, ?_⟩)
    rw [List.getElem?_drop, Nat.add_sub_cancel' hin, List.getElem?_take, if_pos hnj]
    exact hn

/-- A log that is quiet about a key from some place on has its last element before it. -/
theorem Quiet.lastOf_take {i j : Nat} (h : Quiet key k l i j) (hij : i ≤ j) :
    lastOf key k (l.take j) = lastOf key k (l.take i) := by
  have hsplit := List.take_append_drop i (l.take j)
  rw [List.take_take, Nat.min_eq_left hij] at hsplit
  rw [← hsplit, lastOf_append, quiet_iff.mp h, Option.none_or]

/-- One element more is the last of its key. -/
theorem lastOf_take_succ {n : Nat} {a : A} (h : l[n]? = some a) :
    lastOf key k (l.take (n + 1)) = if key a = k then some a else lastOf key k (l.take n) := by
  rw [List.take_add_one, h, Option.toList_some, lastOf_snoc]

/-- In an empty list nothing has to follow anything. -/
theorem follows_nil {P Q : A → Prop} : Follows key P Q [] := fun pre a post h =>
  absurd h.symm (List.append_ne_nil_of_right_ne_nil pre (List.cons_ne_nil a post))

/-- An element may come when the last one of its key is what it has to follow. -/
theorem Follows.snoc {P Q : A → Prop} (h : Follows key P Q l) {a : A}
    (ha : P a → ∃ b, lastOf key (key a) l = some b ∧ Q b) : Follows key P Q (l ++ [a]) := by
  intro pre b post heq hb
  rcases List.eq_nil_or_concat post with rfl | ⟨post', c, rfl⟩
  · obtain ⟨rfl, hab⟩ := List.append_inj' heq rfl
    cases hab
    exact ha hb
  · rw [List.concat_eq_append, ← List.cons_append, ← List.append_assoc] at heq
    exact h pre b post' (List.append_inj' heq rfl).1 hb

/-- Elements with distinct keys are appended together. -/
theorem Follows.append {P Q : A → Prop} (h : Follows key P Q l) {l' : List A}
    (hkeys : (l'.map key).Nodup)
    (hl' : ∀ a ∈ l', P a → ∃ b, lastOf key (key a) l = some b ∧ Q b) :
    Follows key P Q (l ++ l') := by
  induction l' using List.reverseRecOn with
  | nil => rwa [List.append_nil]
  | append_singleton l' a ih =>
    rw [List.map_append, List.nodup_append] at hkeys
    rw [← List.append_assoc]
    refine (ih hkeys.1 fun b hb => hl' b (List.mem_append_left _ hb)).snoc fun hP => ?_
    have hne : ∀ b ∈ l', key b ≠ key a := fun b hb =>
      hkeys.2.2 (key b) (List.mem_map_of_mem hb) (key a) List.mem_cons_self
    rw [lastOf_append_of_ne hne]
    exact hl' a (List.mem_append_right _ List.mem_cons_self) hP

end Laws

end TinyProbe.Stream
