import Mathlib.Data.List.AList

/-!
# Maps with a listing

`Map K V` is Mathlib's association list over a constant value type: a finite map whose entries can
be listed, as the key loops of a program need. Mathlib has lookup, insertion and erasure; the bulk
operations here change every value, by itself (`mapVals`) or by its entry (`mapEntries`), drop the
keys that fail a test (`filterKeys`), and insert the elements of a list one after another
(`insertAll`), which depends on their order exactly if two of them disagree about a key
(`insertAll_order_iff`).
-/

namespace TinyProbe

universe u v

/-- A finite map from `K` to `V`. -/
abbrev Map (K : Type u) (V : Type v) := AList (fun _ : K => V)

namespace Map

variable {K : Type u} {V : Type v} [DecidableEq K]

/-- Mathlib's instance does not compute. -/
instance [DecidableEq V] : DecidableEq (Map K V) := fun _ _ =>
  decidable_of_iff _ AList.ext_iff.symm

/-- Every value replaced by its image; the keys stay. -/
def mapVals (f : V → V) (m : Map K V) : Map K V :=
  ⟨m.entries.map (Sigma.map id fun _ => f), m.nodupKeys.map₂ _⟩

/-- Every value replaced by the image of its entry. -/
def mapEntries (f : K → V → V) (m : Map K V) : Map K V :=
  ⟨m.entries.map (Sigma.map id f), m.nodupKeys.map₂ _⟩

/-- The entries whose key passes the test. -/
def filterKeys (p : K → Bool) (m : Map K V) : Map K V :=
  ⟨m.entries.filter fun e => p e.1, m.nodupKeys.sublist List.filter_sublist⟩

@[simp] theorem lookup_mapVals (f : V → V) (m : Map K V) (k : K) :
    AList.lookup k (m.mapVals f) = (AList.lookup k m).map f :=
  List.dlookup_map₂ (f := fun _ => f) k

@[simp] theorem lookup_mapEntries (f : K → V → V) (m : Map K V) (k : K) :
    AList.lookup k (m.mapEntries f) = (AList.lookup k m).map (f k) :=
  List.dlookup_map₂ (f := f) k

@[simp] theorem lookup_filterKeys (p : K → Bool) (m : Map K V) (k : K) :
    AList.lookup k (m.filterKeys p) = if p k then AList.lookup k m else none := by
  ext v
  simp only [AList.lookup, filterKeys, ← Option.mem_def,
    List.mem_dlookup_iff (m.nodupKeys.sublist List.filter_sublist), List.mem_filter]
  split
  next h => simp only [h, and_true, List.mem_dlookup_iff m.nodupKeys]
  next h => simp only [h, and_false, Option.mem_def, reduceCtorEq]

/-- An insertion is found under its key, and changes no other. -/
theorem lookup_insert (m : Map K V) (k k' : K) (v : V) :
    AList.lookup k (m.insert k' v) = if k = k' then some v else AList.lookup k m := by
  split
  next h => rw [h]; exact AList.lookup_insert _
  next h => exact AList.lookup_insert_ne h

/-- An erased key is not found, and no other is lost. -/
theorem lookup_erase (m : Map K V) (k k' : K) :
    AList.lookup k (m.erase k') = if k = k' then none else AList.lookup k m := by
  split
  next h => rw [h]; exact AList.lookup_erase _ _
  next h => exact AList.lookup_erase_ne h

/-- The entries are what lookups find. -/
theorem mem_entries_iff {m : Map K V} {k : K} {v : V} :
    (⟨k, v⟩ : Sigma fun _ : K => V) ∈ m.entries ↔ AList.lookup k m = some v :=
  AList.mem_lookup_iff.symm

/-- The keys are those under which something is found. -/
theorem mem_keys_iff {m : Map K V} {k : K} : k ∈ m.keys ↔ ∃ v, AList.lookup k m = some v := by
  rw [← AList.mem_keys, ← AList.lookup_isSome, Option.isSome_iff_exists]

/-- A loop over the entries of a map that updates the value of each key by the key's own entry. -/
theorem lookup_foldl_update {W : Type v} (f : Option V → W → V) (k : K) :
    ∀ (l : List (Sigma fun _ : K => W)) (m : Map K V), l.NodupKeys →
      AList.lookup k (l.foldl (fun m e => m.insert e.1 (f (AList.lookup e.1 m) e.2)) m) =
        (List.dlookup k l).elim (AList.lookup k m) fun w => some (f (AList.lookup k m) w)
  | [], m, _ => rfl
  | ⟨k', w⟩ :: l, m, hl => by
    rw [List.nodupKeys_cons] at hl
    rw [List.foldl_cons, lookup_foldl_update f k l _ hl.2]
    by_cases hk : k = k'
    · subst hk
      have hnone : List.dlookup k l = none := List.dlookup_eq_none.mpr hl.1
      rw [hnone, List.dlookup_cons_eq]
      exact (lookup_insert _ _ _ _).trans (if_pos rfl)
    · rw [List.dlookup_cons_ne _ _ hk, lookup_insert, if_neg hk]

/-! ## Inserting a list -/

section InsertAll

variable {A : Type*} (key : A → K) (value : A → V)

/-- The elements of a list inserted one after another. -/
def insertAll (m : Map K V) (l : List A) : Map K V :=
  l.foldl (fun m a => m.insert (key a) (value a)) m

/-- A key has the value of one of its elements, or of the map if it has none. -/
theorem lookup_insertAll (m : Map K V) (l : List A) (k : K) :
    (∃ a ∈ l, key a = k ∧ AList.lookup k (insertAll key value m l) = some (value a)) ∨
      (∀ a ∈ l, key a ≠ k) ∧ AList.lookup k (insertAll key value m l) = AList.lookup k m := by
  induction l generalizing m with
  | nil => exact Or.inr ⟨fun a ha => absurd ha List.not_mem_nil, rfl⟩
  | cons a l ih =>
    have hcons : insertAll key value m (a :: l) =
        insertAll key value (m.insert (key a) (value a)) l := rfl
    rw [hcons]
    rcases ih (m.insert (key a) (value a)) with ⟨b, hb, hkey, hvalue⟩ | ⟨hnone, hvalue⟩
    · exact Or.inl ⟨b, List.mem_cons_of_mem _ hb, hkey, hvalue⟩
    · rw [lookup_insert] at hvalue
      by_cases hk : k = key a
      · exact Or.inl ⟨a, List.mem_cons_self, hk.symm, hvalue.trans (if_pos hk)⟩
      · exact Or.inr ⟨List.forall_mem_cons.mpr ⟨Ne.symm hk, hnone⟩, hvalue.trans (if_neg hk)⟩

variable {key value} {m : Map K V} {l : List A}

private theorem lookup_insertAll_snoc (a : A) (k : K) :
    AList.lookup k (insertAll key value m (l ++ [a])) =
      if k = key a then some (value a) else AList.lookup k (insertAll key value m l) := by
  rw [insertAll, List.foldl_append]
  exact lookup_insert _ _ _ _

/-- **The order of insertion** does not matter exactly if elements of one key have one value. -/
theorem insertAll_order_iff [DecidableEq A] :
    (∀ o o' : List A, o.Perm l → o'.Perm l → ∀ k,
        AList.lookup k (insertAll key value m o) = AList.lookup k (insertAll key value m o')) ↔
      ∀ a ∈ l, ∀ b ∈ l, key a = key b → value a = value b := by
  constructor
  · intro h a ha b hb hkey
    by_cases hab : a = b
    · rw [hab]
    · -- one order ends in the one element, another in the other
      have hb' : b ∈ l.erase a := (List.mem_erase_of_ne (Ne.symm hab)).mpr hb
      have hl : (a :: b :: (l.erase a).erase b).Perm l :=
        ((List.perm_cons_erase hb').symm.cons a).trans (List.perm_cons_erase ha).symm
      generalize (l.erase a).erase b = rest at hl
      have hends : ∀ c d, (rest ++ [c] ++ [d]).Perm (d :: c :: rest) := fun c d =>
        (List.perm_append_singleton d (rest ++ [c])).trans
          ((List.perm_append_singleton c rest).cons d)
      have hlookup := h _ _ ((hends b a).trans hl)
        (((hends a b).trans (List.Perm.swap a b rest)).trans hl) (key a)
      rw [lookup_insertAll_snoc a, if_pos rfl, lookup_insertAll_snoc b, if_pos hkey] at hlookup
      exact Option.some.inj hlookup
  · intro h o o' ho ho' k
    rcases lookup_insertAll key value m o k with
      ⟨a, ha, hka, hva⟩ | ⟨hnone, hva⟩
    · rcases lookup_insertAll key value m o' k with
        ⟨b, hb, hkb, hvb⟩ | ⟨hnone, hvb⟩
      · rw [hva, hvb, h a (ho.subset ha) b (ho'.subset hb) (hka.trans hkb.symm)]
      · exact absurd hka (hnone a (ho'.symm.subset (ho.subset ha)))
    · rcases lookup_insertAll key value m o' k with
        ⟨b, hb, hkb, hvb⟩ | ⟨_, hvb⟩
      · exact absurd hkb (hnone b (ho.symm.subset (ho'.subset hb)))
      · rw [hva, hvb]

end InsertAll

end Map

end TinyProbe
