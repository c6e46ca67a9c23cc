import Mathlib.Data.Finset.Card
import Mathlib.Data.Finset.Union
import Mathlib.Data.List.Range
import Mathlib.Algebra.Order.Group.Nat

/-!
# Runs of a sequence, and samplings that keep their boundaries

A sequence of length `n` splits into maximal runs of places with a property and runs of places
without it. A run is known by its first place (`RunStart`) as well as by its last (`RunEnd`), so
there are no more of the one than of the other (`card_runEnds_le`), and as runs of the two kinds
alternate, the one kind outnumbers the other by one at most (`card_runStarts_le`).

A sampling keeps some of the places. If it keeps the boundaries of the runs (`KeepsRuns`), its
neighbouring places say of the sequence what its own neighbours say (`KeepsRuns.previous`,
`KeepsRuns.next`), and no place without the property is skipped after one with it
(`KeepsRuns.between`).
-/

namespace TinyProbe.Runs

variable {q : Nat → Prop} {n : Nat}

/-- The first place of a maximal run of `q`. -/
def RunStart (q : Nat → Prop) (i : Nat) : Prop := q i ∧ (i = 0 ∨ ¬ q (i - 1))

/-- The last place of a maximal run of `q`, in a sequence of length `n`. -/
def RunEnd (q : Nat → Prop) (n i : Nat) : Prop := q i ∧ (i + 1 = n ∨ ¬ q (i + 1))

instance decidableRunStart [DecidablePred q] : DecidablePred (RunStart q) := fun i =>
  inferInstanceAs (Decidable (q i ∧ (i = 0 ∨ ¬ q (i - 1))))

instance decidableRunEnd [DecidablePred q] : DecidablePred (RunEnd q n) := fun i =>
  inferInstanceAs (Decidable (q i ∧ (i + 1 = n ∨ ¬ q (i + 1))))

/-- Between a place with the property and a later one without it there is a last one with it. -/
theorem exists_end {i m : Nat} (hi : q i) (hm : ¬ q m) (hlt : i < m) :
    ∃ e, i ≤ e ∧ e < m ∧ q e ∧ ¬ q (e + 1) := by
  induction m with
  | zero => exact absurd hlt (Nat.not_lt_zero i)
  | succ m ih =>
    by_cases hq : q m
    · exact ⟨m, Nat.le_of_lt_succ hlt, Nat.lt_succ_self m, hq, hm⟩
    · have hne : i ≠ m := fun heq => hq (heq ▸ hi)
      obtain ⟨e, hie, hem, he, he'⟩ := ih hq (by omega)
      exact ⟨e, hie, Nat.lt_succ_of_lt hem, he, he'⟩

/-- And between one without it and a later one with it there is a first one with it. -/
theorem exists_start {i m : Nat} (hi : ¬ q i) (hm : q m) (hlt : i < m) :
    ∃ e, i ≤ e ∧ e < m ∧ ¬ q e ∧ q (e + 1) := by
  obtain ⟨e, hie, hem, he, he'⟩ := exists_end (q := fun i => ¬ q i) hi (fun h => h hm) hlt
  exact ⟨e, hie, hem, he, of_not_not he'⟩

/-! ## Counting runs -/

section Count

variable [DecidablePred q]

/-- The first places of the runs. -/
def runStarts (q : Nat → Prop) [DecidablePred q] (n : Nat) : Finset Nat :=
  (Finset.range n).filter (RunStart q)

/-- The last places of the runs. -/
def runEnds (q : Nat → Prop) [DecidablePred q] (n : Nat) : Finset Nat :=
  (Finset.range n).filter (RunEnd q n)

theorem mem_runStarts {i : Nat} : i ∈ runStarts q n ↔ i < n ∧ RunStart q i := by
  rw [runStarts, Finset.mem_filter, Finset.mem_range]

theorem mem_runEnds {i : Nat} : i ∈ runEnds q n ↔ i < n ∧ RunEnd q n i := by
  rw [runEnds, Finset.mem_filter, Finset.mem_range]

/-- The first place of the run that `i` is in. -/
def startOf (q : Nat → Prop) [DecidablePred q] : Nat → Nat
  | 0 => 0
  | i + 1 => if q i then startOf q i else i + 1

theorem startOf_spec {i : Nat} (hi : q i) :
    startOf q i ≤ i ∧ RunStart q (startOf q i) ∧ ∀ j, startOf q i ≤ j → j ≤ i → q j := by
  induction i with
  | zero => exact ⟨Nat.le_refl 0, ⟨hi, Or.inl rfl⟩, fun j _ hj => by rwa [Nat.le_zero.mp hj]⟩
  | succ i ih =>
    rw [startOf]
    split
    next hq =>
      obtain ⟨hle, hstart, hall⟩ := ih hq
      refine ⟨Nat.le_succ_of_le hle, hstart, fun j hj hji => ?_⟩
      rcases Nat.le_succ_iff.mp hji with hji | rfl
      · exact hall j hj hji
      · exact hi
    next hq =>
      refine ⟨Nat.le_refl _, ⟨hi, Or.inr hq⟩, fun j hj hji => ?_⟩
      rwa [Nat.le_antisymm hji hj]

/-- Two last places of one run are the same. -/
theorem runEnd_unique {i j : Nat} (hi : RunEnd q n i) (hj : RunEnd q n j) (hjn : j < n)
    (hstart : startOf q i = startOf q j) : ¬ i < j := by
  intro hlt
  obtain ⟨hle, _, _⟩ := startOf_spec hi.1
  obtain ⟨_, _, hall⟩ := startOf_spec hj.1
  rcases hi.2 with hend | hnext
  · omega
  · exact hnext (hall (i + 1) (by omega) hlt)

/-- **There are as many last places as first ones**, or fewer: each has a first place of its own. -/
theorem card_runEnds_le : (runEnds q n).card ≤ (runStarts q n).card := by
  refine Finset.card_le_card_of_injOn (startOf q) (fun i hi => ?_) (fun i hi j hj hstart => ?_)
  · obtain ⟨hin, hend⟩ := mem_runEnds.mp hi
    obtain ⟨hle, hstart, _⟩ := startOf_spec hend.1
    exact mem_runStarts.mpr ⟨Nat.lt_of_le_of_lt hle hin, hstart⟩
  · obtain ⟨hin, hi⟩ := mem_runEnds.mp hi
    obtain ⟨hjn, hj⟩ := mem_runEnds.mp hj
    rcases Nat.lt_trichotomy i j with hlt | heq | hlt
    · exact absurd hlt (runEnd_unique hi hj hjn hstart)
    · exact heq
    · exact absurd hlt (runEnd_unique hj hi hin hstart.symm)

/-- **Runs alternate**: each run of the one kind but for the first comes after one of the other. -/
theorem card_runStarts_le : (runStarts q n).card ≤ (runStarts (fun i => ¬ q i) n).card + 1 := by
  have hsub : runStarts q n ⊆ insert 0 ((runEnds (fun i => ¬ q i) n).image (· + 1)) := by
    intro i hi
    obtain ⟨hin, hq, hfirst⟩ := mem_runStarts.mp hi
    rw [Finset.mem_insert, Finset.mem_image]
    rcases hfirst with rfl | hprevious
    · exact Or.inl rfl
    · have hpos : i ≠ 0 := by
        rintro rfl
        exact hprevious hq
      refine Or.inr ⟨i - 1, mem_runEnds.mpr ⟨by omega, hprevious, Or.inr ?_⟩, by omega⟩
      rw [Nat.sub_add_cancel (Nat.pos_of_ne_zero hpos)]
      exact fun h => h hq
  calc (runStarts q n).card
      ≤ (insert 0 ((runEnds (fun i => ¬ q i) n).image (· + 1))).card := Finset.card_le_card hsub
    _ ≤ ((runEnds (fun i => ¬ q i) n).image (· + 1)).card + 1 := Finset.card_insert_le _ _
    _ ≤ (runEnds (fun i => ¬ q i) n).card + 1 := Nat.succ_le_succ Finset.card_image_le
    _ ≤ (runStarts (fun i => ¬ q i) n).card + 1 := Nat.succ_le_succ card_runEnds_le

end Count

/-! ## Samplings -/

/-- The sampling `K` of a sequence of length `n` keeps both ends of the sequence, both ends of each
run of `q` and the beginning of each gap. -/
structure KeepsRuns (q : Nat → Prop) (n : Nat) (K : Nat → Prop) : Prop where
  bound : ∀ i, K i → i < n
  first : 0 < n → K 0
  last : 0 < n → K (n - 1)
  runStart : ∀ i < n, RunStart q i → K i
  runEnd : ∀ i < n, RunEnd q n i → K i
  gapStart : ∀ i < n, RunStart (fun i => ¬ q i) i → K i

/-- `i` and `j` are neighbours in the sampling. -/
structure Adjacent (K : Nat → Prop) (i j : Nat) : Prop where
  lt : i < j
  left : K i
  right : K j
  between : ∀ m, i < m → m < j → ¬ K m

section Sampling

variable {K : Nat → Prop} {i j : Nat}

/-- The order of an ascending listing is that of its places. -/
theorem lt_iff_of_listing {l : List Nat} (h : l.Pairwise (· < ·)) {a b : Nat} (ha : l[a]? = some i)
    (hb : l[b]? = some j) : i < j ↔ a < b := by
  obtain ⟨halt, rfl⟩ := List.getElem?_eq_some_iff.mp ha
  obtain ⟨hblt, rfl⟩ := List.getElem?_eq_some_iff.mp hb
  have hall := List.pairwise_iff_getElem.mp h
  rcases Nat.lt_trichotomy a b with hlt | rfl | hlt
  · exact ⟨fun _ => hlt, fun _ => hall a b halt hblt hlt⟩
  · exact ⟨fun hself => absurd hself (Nat.lt_irrefl _), fun hself => absurd hself (Nat.lt_irrefl _)⟩
  · have hgt := hall b a hblt halt hlt
    exact ⟨fun hab => absurd hab (Nat.lt_asymm hgt), fun hab => absurd hab (Nat.lt_asymm hlt)⟩

/-- **Neighbours in an ascending listing of the sampling are neighbours in the sampling.** -/
theorem adjacent_of_listing {l : List Nat} (h : l.Pairwise (· < ·)) (hl : ∀ i, i ∈ l ↔ K i) {k : Nat}
    (hi : l[k]? = some i) (hj : l[k + 1]? = some j) : Adjacent K i j where
  lt := (lt_iff_of_listing h hi hj).mpr (Nat.lt_succ_self k)
  left := (hl i).mp (List.mem_of_getElem? hi)
  right := (hl j).mp (List.mem_of_getElem? hj)
  between m him hmj hm := by
    obtain ⟨a, ha⟩ := List.mem_iff_getElem?.mp ((hl m).mpr hm)
    have hka := (lt_iff_of_listing h hi ha).mp him
    have hak := (lt_iff_of_listing h ha hj).mp hmj
    omega

/-- **Nothing without the property is skipped** after a place with it. -/
theorem KeepsRuns.between (h : KeepsRuns q n K) (hij : Adjacent K i j) (hi : q i) :
    ∀ m, i < m → m < j → q m := by
  intro m him hmj
  by_contra hm
  obtain ⟨e, hie, hem, he, he'⟩ := exists_end hi hm him
  have hjn := h.bound j hij.right
  exact hij.between (e + 1) (by omega) (by omega)
    (h.gapStart (e + 1) (by omega) ⟨he', Or.inr fun hnot => hnot he⟩)

/-- **The previous place kept has the property if the previous place has it.** -/
theorem KeepsRuns.previous (h : KeepsRuns q n K) (hij : Adjacent K i j) : q i ↔ q (j - 1) := by
  have hlt := hij.lt
  have hjn := h.bound j hij.right
  constructor
  · intro hi
    by_contra hprevious
    have hne : i ≠ j - 1 := fun heq => hprevious (heq ▸ hi)
    obtain ⟨e, hie, hem, he, he'⟩ := exists_end hi hprevious (by omega)
    exact hij.between (e + 1) (by omega) (by omega)
      (h.gapStart (e + 1) (by omega) ⟨he', Or.inr fun hnot => hnot he⟩)
  · intro hprevious
    by_contra hi
    have hne : i ≠ j - 1 := fun heq => hi (heq ▸ hprevious)
    obtain ⟨e, hie, hem, he, he'⟩ := exists_start hi hprevious (by omega)
    exact hij.between (e + 1) (by omega) (by omega)
      (h.runStart (e + 1) (by omega) ⟨he', Or.inr he⟩)

/-- **And the next one kept if the next place has it.** -/
theorem KeepsRuns.next (h : KeepsRuns q n K) (hij : Adjacent K i j) (hi : q i) :
    q j ↔ q (i + 1) := by
  have hlt := hij.lt
  have hjn := h.bound j hij.right
  constructor
  · intro hj
    by_contra hnext
    have hne : i + 1 ≠ j := fun heq => hnext (heq ▸ hj)
    exact hij.between (i + 1) (by omega) (by omega)
      (h.gapStart (i + 1) (by omega) ⟨hnext, Or.inr fun hnot => hnot hi⟩)
  · intro hnext
    by_contra hj
    have hne : i + 1 ≠ j := fun heq => hj (heq ▸ hnext)
    obtain ⟨e, hie, hem, he, he'⟩ := exists_end hnext hj (by omega)
    exact hij.between e (by omega) (by omega) (h.runEnd e (by omega) ⟨he, Or.inr he'⟩)

end Sampling

end TinyProbe.Runs
