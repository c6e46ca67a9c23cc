import TinyProbe.Lib.Extremum
import TinyProbe.Lib.Runs
import TinyProbe.Web.ChartSeries

/-!
# What the loop of a chart keeps

After `k` minutes (`Scanned`) the loop knows whether the last minute was a gap, has kept the
boundaries of the runs before `k` (`Boundary`), and has the sums of the values before `k`. A bucket
knows an extremum of each kind of its own minutes (`Bucketed`). Over the buckets (`Rounds`) the set
of candidates is that of the boundaries and an `extra` of the endpoints and at most four places of
each bucket, its extrema among them.
-/

namespace TinyProbe.Web

open TinyProbe.Runs TinyProbe.Extremum

variable {F : Type}

/-- There is a value at a minute. -/
def Present (v : Nat → Option F) (i : Nat) : Prop := (v i).isSome = true

instance (v : Nat → Option F) : DecidablePred (Present v) := fun i =>
  inferInstanceAs (Decidable ((v i).isSome = true))

theorem present_iff {v : Nat → Option F} {i : Nat} : Present v i ↔ ∃ x, v i = some x :=
  Option.isSome_iff_exists

theorem not_present_iff {v : Nat → Option F} {i : Nat} : ¬ Present v i ↔ v i = none := by
  rw [Present, Bool.not_eq_true, Option.isSome_eq_false_iff, Option.isNone_iff_eq_none]

/-- The boundaries of runs that a loop has met after `k` minutes: the first minute of a gap, and the
minutes with a value on its two sides. -/
inductive Boundary (v : Nat → Option F) (k : Nat) : Nat → Prop
  | gap {i : Nat} (hlt : i < k) (h : RunStart (fun j => ¬ Present v j) i) : Boundary v k i
  | after {i : Nat} (hlt : i + 1 < k) (hi : ¬ Present v i) (h : Present v (i + 1)) :
    Boundary v k (i + 1)
  | before {i : Nat} (hlt : i + 1 < k) (hi : Present v i) (h : ¬ Present v (i + 1)) :
    Boundary v k i

variable {v : Nat → Option F} {k i : Nat}

theorem Boundary.lt (h : Boundary v k i) : i < k := by
  cases h with
  | gap hlt _ => exact hlt
  | after hlt _ _ => exact hlt
  | before hlt _ _ => exact Nat.lt_of_succ_lt hlt

/-- A boundary among the minutes so far stays one when the next minute comes. -/
theorem Boundary.succ (h : Boundary v k i) : Boundary v (k + 1) i := by
  cases h with
  | gap hlt h => exact .gap (Nat.lt_succ_of_lt hlt) h
  | after hlt hi h => exact .after (Nat.lt_succ_of_lt hlt) hi h
  | before hlt hi h => exact .before (Nat.lt_succ_of_lt hlt) hi h

/-- What the boundaries of one more minute are. -/
theorem boundary_succ (h : Boundary v (k + 1) i) :
    Boundary v k i ∨ (i = k ∧ RunStart (fun j => ¬ Present v j) k) ∨
      (i = k ∧ 0 < k ∧ ¬ Present v (k - 1) ∧ Present v k) ∨
      (i + 1 = k ∧ Present v (k - 1) ∧ ¬ Present v k) := by
  cases h with
  | gap hlt hstart =>
    rcases Nat.lt_succ_iff_lt_or_eq.mp hlt with hlt | rfl
    · exact Or.inl (.gap hlt hstart)
    · exact Or.inr (Or.inl ⟨rfl, hstart⟩)
  | @after i hlt hi hnext =>
    rcases Nat.lt_succ_iff_lt_or_eq.mp hlt with hlt | rfl
    · exact Or.inl (.after hlt hi hnext)
    · exact Or.inr (Or.inr (Or.inl ⟨rfl, Nat.succ_pos i, hi, hnext⟩))
  | before hlt hi hnext =>
    rcases Nat.lt_succ_iff_lt_or_eq.mp hlt with hlt | rfl
    · exact Or.inl (.before hlt hi hnext)
    · exact Or.inr (Or.inr (Or.inr ⟨rfl, hi, hnext⟩))

section Loop

variable [Number F]

/-- The sums of a list of values. -/
def accumulated (values : List F) : StatsAccumulator F :=
  values.foldl StatsAccumulator.add
    { sum := Number.ofNat 0, count := 0, maximum := none, current := none }

/-- The state of a series after `k` minutes. -/
structure Scanned (v : Nat → Option F) (extra : Finset Nat) (k : Nat) (state : SeriesState F) :
    Prop where
  gapOpen : state.gapOpen = true ↔ 0 < k ∧ ¬ Present v (k - 1)
  lastFiniteIndex : state.gapOpen = false →
    state.lastFiniteIndex = if k = 0 then none else some (k - 1)
  candidates : ∀ i, i ∈ state.candidates ↔ i ∈ extra ∨ Boundary v k i
  aggregate : state.aggregate = accumulated ((List.range k).filterMap v)

/-- The state of a bucket that began at `start`, after `k` minutes. -/
structure Bucketed (v : Nat → Option F) (start k : Nat) (bucket : BucketAccumulator F) : Prop where
  first : ∀ i, bucket.first = some i → i < k
  last : ∀ i, bucket.last = some i → i < k
  minimum : Tracks Number.lt Number.posInf v start k bucket.minimumIndex bucket.minimumValue
  maximum : Tracks (fun x y => Number.lt y x) Number.negInf v start k bucket.maximumIndex
    bucket.maximumValue

/-- Of finite numbers the smaller comes first. -/
theorem ranking_lt : Ranking (A := F) Number.lt (fun x => Number.isFinite x = true)
    Number.posInf where
  asymm := Number.lt_asymm
  trans := Number.not_lt_trans
  bound := Number.lt_posInf

/-- Or the larger. -/
theorem ranking_gt : Ranking (A := F) (fun x y => Number.lt y x)
    (fun x => Number.isFinite x = true) Number.negInf where
  asymm x y h := Number.lt_asymm y x h
  trans x y z hx hy hz hxy hyz := Number.not_lt_trans z y x hz hy hx hyz hxy
  bound := Number.negInf_lt

variable {extra : Finset Nat} {state : SeriesState F} {start : Nat} {bucket : BucketAccumulator F}

omit [Number F] in
theorem filterMap_range_succ (v : Nat → Option F) (k : Nat) :
    (List.range (k + 1)).filterMap v = (List.range k).filterMap v ++ (v k).toList := by
  rw [List.range_succ, List.filterMap_append, List.filterMap_cons, List.filterMap_nil]
  cases v k with
  | none => rfl
  | some x => rfl

/-- A gap goes on. -/
theorem Scanned.visit_gap (h : Scanned v extra k state) (hopen : state.gapOpen = true)
    (hnone : v k = none) : Scanned v extra (k + 1) state := by
  obtain ⟨hpos, hprevious⟩ := h.gapOpen.mp hopen
  have hk : ¬ Present v k := not_present_iff.mpr hnone
  refine ⟨⟨fun _ => ⟨Nat.succ_pos k, hk⟩, fun _ => hopen⟩, ?_, fun i => ?_, ?_⟩
  · intro hclosed
    rw [hopen] at hclosed
    cases hclosed
  · rw [h.candidates]
    refine or_congr_right ⟨Boundary.succ, fun hb => ?_⟩
    rcases boundary_succ hb with hb | ⟨_, _, hfirst⟩ | ⟨_, _, _, hpresent⟩ | ⟨_, hpresent, _⟩
    · exact hb
    · rcases hfirst with rfl | hfirst
      · exact absurd hpos (Nat.lt_irrefl 0)
      · exact absurd hprevious hfirst
    · exact absurd hpresent hk
    · exact absurd hpresent hprevious
  · rw [h.aggregate, filterMap_range_succ, hnone, Option.toList_none, List.append_nil]

/-- A gap begins: its first minute is kept, and the minute before it. -/
theorem Scanned.visit_none (h : Scanned v extra k state) (hclosed : state.gapOpen = false)
    (hnone : v k = none) :
    Scanned v extra (k + 1)
      { state with
        candidates := insert k (addIndex state.candidates state.lastFiniteIndex)
        gapOpen := true } := by
  have hk : ¬ Present v k := not_present_iff.mpr hnone
  have hprevious : k = 0 ∨ Present v (k - 1) := by
    rcases Nat.eq_zero_or_pos k with hzero | hpos
    · exact Or.inl hzero
    · refine Or.inr (of_not_not fun hnot => ?_)
      rw [h.gapOpen.mpr ⟨hpos, hnot⟩] at hclosed
      cases hclosed
  have hstart : RunStart (fun j => ¬ Present v j) k :=
    ⟨hk, hprevious.imp_right fun hp hnot => hnot hp⟩
  refine ⟨⟨fun _ => ⟨Nat.succ_pos k, hk⟩, fun _ => rfl⟩, (fun hfalse => by cases hfalse),
    fun i => ?_, ?_⟩
  · rw [Finset.mem_insert, h.lastFiniteIndex hclosed]
    -- the minute before the gap has a value, unless there is none
    have hadd : i ∈ addIndex state.candidates (if k = 0 then none else some (k - 1)) ↔
        i ∈ extra ∨ Boundary v k i ∨ (i + 1 = k ∧ Present v (k - 1)) := by
      rcases hprevious with rfl | hp
      · rw [if_pos rfl, addIndex, h.candidates]
        exact or_congr_right ⟨Or.inl, fun hb => hb.resolve_right fun hend => by omega⟩
      · by_cases hzero : k = 0
        · subst hzero
          rw [if_pos rfl, addIndex, h.candidates]
          exact or_congr_right ⟨Or.inl, fun hb => hb.resolve_right fun hend => by omega⟩
        · rw [if_neg hzero, addIndex, Finset.mem_insert, h.candidates]
          have hend : i = k - 1 ↔ i + 1 = k ∧ Present v (k - 1) :=
            ⟨fun heq => ⟨by omega, hp⟩, fun heq => by omega⟩
          rw [hend]
          tauto
    rw [hadd]
    constructor
    · rintro (rfl | hextra | hb | ⟨hend, hp⟩)
      · exact Or.inr (.gap (Nat.lt_succ_self i) hstart)
      · exact Or.inl hextra
      · exact Or.inr hb.succ
      · obtain rfl : k = i + 1 := hend.symm
        exact Or.inr (.before (Nat.lt_succ_self _) hp hk)
    · rintro (hextra | hb)
      · exact Or.inr (Or.inl hextra)
      · rcases boundary_succ hb with hb | ⟨rfl, _⟩ | ⟨rfl, _⟩ | ⟨hend, hp, _⟩
        · exact Or.inr (Or.inr (Or.inl hb))
        · exact Or.inl rfl
        · exact Or.inl rfl
        · exact Or.inr (Or.inr (Or.inr ⟨hend, hp⟩))
  · rw [h.aggregate, filterMap_range_succ, hnone, Option.toList_none, List.append_nil]

/-- A value: the minute is kept if it comes right after a gap. -/
theorem Scanned.visit_some (h : Scanned v extra k state) {x : F} (hx : v k = some x) :
    Scanned v extra (k + 1)
      { candidates := if state.gapOpen then insert k state.candidates else state.candidates
        gapOpen := false
        lastFiniteIndex := some k
        aggregate := state.aggregate.add x
        bucket := state.bucket.add k x } := by
  have hk : Present v k := present_iff.mpr ⟨x, hx⟩
  refine ⟨⟨(fun hfalse => by cases hfalse), fun hgap => absurd hk hgap.2⟩, fun _ => rfl,
    fun i => ?_, ?_⟩
  · have hadd : (i ∈ if state.gapOpen then insert k state.candidates else state.candidates) ↔
        (i = k ∧ 0 < k ∧ ¬ Present v (k - 1)) ∨ i ∈ extra ∨ Boundary v k i := by
      split
      next hopen =>
        rw [Finset.mem_insert, h.candidates]
        exact or_congr_left ⟨fun heq => ⟨heq, h.gapOpen.mp hopen⟩, fun heq => heq.1⟩
      next hclosed =>
        rw [h.candidates]
        exact ⟨Or.inr, fun hb => hb.resolve_left fun heq => hclosed (h.gapOpen.mpr heq.2)⟩
    rw [hadd]
    constructor
    · rintro (⟨rfl, hpos, hprevious⟩ | hextra | hb)
      · obtain ⟨j, rfl⟩ : ∃ j, i = j + 1 := ⟨i - 1, by omega⟩
        exact Or.inr (.after (Nat.lt_succ_self _) hprevious hk)
      · exact Or.inl hextra
      · exact Or.inr hb.succ
    · rintro (hextra | hb)
      · exact Or.inr (Or.inl hextra)
      · rcases boundary_succ hb with hb | ⟨_, hstart⟩ | ⟨heq, hpos, hp, _⟩ | ⟨_, _, hnot⟩
        · exact Or.inr (Or.inr hb)
        · exact absurd hk hstart.1
        · exact Or.inl ⟨heq, hpos, hp⟩
        · exact absurd hk hnot
  · rw [h.aggregate, filterMap_range_succ, hx, Option.toList_some, accumulated, accumulated,
      List.foldl_append]
    rfl

/-- **One minute.** -/
theorem Scanned.visit (h : Scanned v extra k state) :
    Scanned v extra (k + 1) (Web.visit (v k) k state) := by
  unfold Web.visit
  split
  next hnone =>
    split
    next hopen => exact h.visit_gap hopen hnone
    next hclosed => exact h.visit_none (Bool.eq_false_iff.mpr hclosed) hnone
  next x hx => exact h.visit_some hx

/-- A new bucket, and what was added of the last one. -/
theorem Scanned.renew (h : Scanned v extra k state) {extra' : Finset Nat} {candidates : Finset Nat}
    (hcandidates : ∀ i, i ∈ candidates ↔ i ∈ extra' ∨ Boundary v k i)
    (bucket : BucketAccumulator F) :
    Scanned v extra' k { state with candidates, bucket } :=
  ⟨h.gapOpen, h.lastFiniteIndex, hcandidates, h.aggregate⟩

theorem bucketed_new (start : Nat) : Bucketed v start start newBucketAccumulator :=
  ⟨(fun _ h => by cases h), (fun _ h => by cases h), tracks_empty, tracks_empty⟩

/-- **One minute of a bucket.** -/
theorem Bucketed.visit (h : Bucketed v start k state.bucket)
    (hv : ∀ i x, v i = some x → Number.isFinite x = true) (hle : start ≤ k) :
    Bucketed v start (k + 1) (Web.visit (v k) k state).bucket := by
  have hskip : v k = none → Bucketed v start (k + 1) state.bucket := fun hnone =>
    ⟨fun i hi => Nat.lt_succ_of_lt (h.first i hi), fun i hi => Nat.lt_succ_of_lt (h.last i hi),
      h.minimum.skip hnone, h.maximum.skip hnone⟩
  unfold Web.visit
  split
  next hnone =>
    split
    next => exact hskip hnone
    next => exact hskip hnone
  next x hx =>
    refine ⟨fun i hi => ?_, fun i hi => ?_, h.minimum.add ranking_lt hv hle hx,
      h.maximum.add ranking_gt hv hle hx⟩
    · rcases Option.or_eq_some_iff.mp hi with hi | ⟨_, hi⟩
      · exact Nat.lt_succ_of_lt (h.first i hi)
      · cases hi
        exact Nat.lt_succ_self k
    · cases hi
      exact Nat.lt_succ_self k

/-- **The minutes of a bucket.** -/
theorem scan_minutes (hv : ∀ i x, v i = some x → Number.isFinite x = true) (length : Nat)
    (hscanned : Scanned v extra k state) (hbucketed : Bucketed v start k state.bucket)
    (hle : start ≤ k) :
    Scanned v extra (k + length)
        ((List.range' k length).foldl (fun state index => Web.visit (v index) index state) state) ∧
      Bucketed v start (k + length)
        ((List.range' k length).foldl (fun state index => Web.visit (v index) index state)
          state).bucket := by
  induction length generalizing k state with
  | zero => exact ⟨hscanned, hbucketed⟩
  | succ length ih =>
    rw [List.range'_succ, List.foldl_cons, Nat.add_comm length 1, ← Nat.add_assoc]
    exact ih hscanned.visit (hbucketed.visit hv hle) (Nat.le_succ_of_le hle)

end Loop

/-! ## Buckets -/

section Buckets

variable {n P : Nat}

theorem bucketCount_pos (n P : Nat) : 0 < bucketCount n P := by
  unfold bucketCount
  split
  next => exact Nat.one_pos
  next => exact Nat.lt_of_lt_of_le Nat.one_pos (Nat.le_max_left 1 _)

/-- The buckets reach the end. -/
theorem le_bucketCount_mul (n P : Nat) : n ≤ bucketCount n P * bucketSize n P := by
  have hpos := bucketCount_pos n P
  have hdiv := Nat.lt_mul_div_succ (n + bucketCount n P - 1) hpos
  rw [bucketSize, Nat.mul_add, Nat.mul_one] at *
  omega

/-- The minutes before the bucket `b`. -/
def progress (n P b : Nat) : Nat := min n (b * bucketSize n P)

theorem progress_zero : progress n P 0 = 0 := by rw [progress, Nat.zero_mul, Nat.min_zero]

theorem progress_last : progress n P (bucketCount n P) = n :=
  Nat.min_eq_left (le_bucketCount_mul n P)

/-- No bucket reaches past the last minute. -/
theorem progress_le (b : Nat) : progress n P b ≤ n := Nat.min_le_left _ _

theorem progress_le_succ (b : Nat) : progress n P b ≤ progress n P (b + 1) := by
  rw [progress, progress, Nat.add_mul, Nat.one_mul]
  omega

/-- The minutes of a bucket come right after those of the ones before. -/
theorem bucketMinutes_eq (b : Nat) : bucketMinutes n P b =
    List.range' (progress n P b) (progress n P (b + 1) - progress n P b) := by
  simp only [bucketMinutes, progress, Nat.add_mul, Nat.one_mul]
  by_cases hlt : b * bucketSize n P ≤ n
  · rw [Nat.min_eq_right hlt]
  · rw [Nat.min_eq_left (by omega), Nat.min_eq_left (by omega), Nat.sub_self,
      Nat.sub_eq_zero_of_le (by omega), List.range'_zero, List.range'_zero]

/-- The minutes of a bucket lie between its ends. -/
theorem mem_bucketMinutes_iff {b i : Nat} :
    i ∈ bucketMinutes n P b ↔ progress n P b ≤ i ∧ i < progress n P (b + 1) := by
  have hle := progress_le_succ (n := n) (P := P) b
  rw [bucketMinutes_eq, List.mem_range'_1]
  omega

/-- The buckets follow each other without a gap. -/
theorem flatMap_bucketMinutes (b : Nat) :
    (List.range b).flatMap (bucketMinutes n P) = List.range (progress n P b) := by
  induction b with
  | zero => rw [progress_zero, List.range_zero, List.flatMap_nil]
  | succ b ih =>
    have happend := List.range'_append_1 (s := 0) (m := progress n P b)
      (n := progress n P (b + 1) - progress n P b)
    rw [Nat.zero_add, Nat.add_sub_cancel' (progress_le_succ b)] at happend
    rw [List.range_succ, List.flatMap_append, List.flatMap_singleton, ih, bucketMinutes_eq,
      List.range_eq_range', List.range_eq_range', happend]

/-- **The buckets cover every minute exactly once.** -/
theorem buckets_cover (n P : Nat) :
    (List.range (bucketCount n P)).flatMap (bucketMinutes n P) = List.range n := by
  rw [flatMap_bucketMinutes, progress_last]

/-! ## The set of candidates -/

theorem mem_foldl_addIndex {l : List (Option Nat)} {s : Finset Nat} {i : Nat} :
    i ∈ l.foldl addIndex s ↔ i ∈ s ∨ some i ∈ l := by
  induction l generalizing s with
  | nil => rw [List.foldl_nil]; exact ⟨Or.inl, fun h => h.resolve_right List.not_mem_nil⟩
  | cons index l ih =>
    rw [List.foldl_cons, ih, List.mem_cons]
    cases index with
    | none =>
      rw [addIndex]
      exact or_congr_right ⟨Or.inr, fun h => h.resolve_left (fun heq => by cases heq)⟩
    | some j =>
      rw [addIndex, Finset.mem_insert, Option.some_inj]
      tauto

/-- Each index adds at most one candidate. -/
theorem card_foldl_addIndex (l : List (Option Nat)) (s : Finset Nat) :
    (l.foldl addIndex s).card ≤ s.card + l.length := by
  induction l generalizing s with
  | nil => exact Nat.le_refl _
  | cons index l ih =>
    have hadd : (addIndex s index).card ≤ s.card + 1 := by
      cases index with
      | none => exact Nat.le_succ _
      | some j => exact Finset.card_insert_le j s
    have hrest := ih (addIndex s index)
    rw [List.foldl_cons, List.length_cons]
    omega

/-- A bucket adds its first, its last, its smallest and its greatest minute. -/
theorem mem_addBucketCandidates {s : Finset Nat} {bucket : BucketAccumulator F} {i : Nat} :
    i ∈ addBucketCandidates s bucket ↔
      i ∈ s ∨ some i ∈ [bucket.first, bucket.last, bucket.minimumIndex, bucket.maximumIndex] :=
  mem_foldl_addIndex

theorem mem_initialCandidates {i : Nat} (h : i ∈ initialCandidates n P) (hn : 0 < n) : i < n := by
  unfold initialCandidates at h
  split at h
  next =>
    rcases Finset.mem_union.mp h with h | h
    · rcases Finset.mem_insert.mp h with rfl | h
      · exact hn
      · rw [Finset.mem_singleton] at h
        omega
    · exact Finset.mem_range.mp h
  next =>
    rcases Finset.mem_insert.mp h with rfl | h
    · exact hn
    · rw [Finset.mem_singleton] at h
      omega

variable [Number F]

/-- If a window has a value, the set has a minimum and a maximum of it. -/
def Extrema (v : Nat → Option F) (extra : Finset Nat) (start stop : Nat) : Prop :=
  ∀ i x, start ≤ i → i < stop → v i = some x →
    (∃ j ∈ extra, ∃ y, Foremost Number.lt v start stop j y) ∧
      ∃ j ∈ extra, ∃ y, Foremost (fun x y => Number.lt y x) v start stop j y

/-- Further candidates take no extremum away. -/
theorem Extrema.mono {v : Nat → Option F} {extra extra' : Finset Nat} {start stop : Nat}
    (h : Extrema v extra start stop) (hsub : extra ⊆ extra') : Extrema v extra' start stop := by
  intro i x hi hlt hx
  obtain ⟨⟨j, hj, hmin⟩, ⟨m, hm, hmax⟩⟩ := h i x hi hlt hx
  exact ⟨⟨j, hsub hj, hmin⟩, m, hsub hm, hmax⟩

/-- The state of a series after `b` buckets. -/
structure Rounds (v : Nat → Option F) (n P b : Nat) (extra : Finset Nat) (state : SeriesState F) :
    Prop where
  scanned : Scanned v extra (progress n P b) state
  base : initialCandidates n P ⊆ extra
  bound : ∀ i ∈ extra, i < n
  card : extra.card ≤ (initialCandidates n P).card + 4 * b
  extrema : P < n → ∀ c < b, Extrema v extra (progress n P c) (progress n P (c + 1))

variable {v : Nat → Option F} {extra : Finset Nat} {state : SeriesState F} {b : Nat}

theorem rounds_new (hn : 0 < n) :
    Rounds v n P 0 (initialCandidates n P) (SeriesState.new n P) where
  scanned := by
    rw [progress_zero]
    refine ⟨⟨(fun h => by cases h), fun h => absurd h.1 (Nat.lt_irrefl 0)⟩, fun _ => rfl,
      fun i => ⟨Or.inl, fun h => h.resolve_right fun hb => Nat.not_lt_zero i hb.lt⟩, rfl⟩
  base := Finset.Subset.refl _
  bound i hi := mem_initialCandidates hi hn
  card := Nat.le_refl _
  extrema _ c hc := absurd hc (Nat.not_lt_zero c)

/-- A full bucket adds its four places. -/
theorem Rounds.keep (h : Rounds v n P b extra state) (hlt : P < n) {full : SeriesState F}
    (hscanned : Scanned v extra (progress n P (b + 1)) full)
    (hbucketed : Bucketed v (progress n P b) (progress n P (b + 1)) full.bucket) :
    Rounds v n P (b + 1) (addBucketCandidates extra full.bucket)
      { full with candidates := addBucketCandidates full.candidates full.bucket } where
  scanned := by
    refine hscanned.renew (fun i => ?_) _
    rw [mem_addBucketCandidates, mem_addBucketCandidates, hscanned.candidates]
    tauto
  base i hi := mem_addBucketCandidates.mpr (Or.inl (h.base hi))
  bound i hi := by
    have hle := progress_le (n := n) (P := P) (b + 1)
    rcases mem_addBucketCandidates.mp hi with hi | hi
    · exact h.bound i hi
    · simp only [List.mem_cons, List.not_mem_nil, or_false] at hi
      rcases hi with hi | hi | hi | hi
      · exact Nat.lt_of_lt_of_le (hbucketed.first i hi.symm) hle
      · exact Nat.lt_of_lt_of_le (hbucketed.last i hi.symm) hle
      · have hmem := hbucketed.minimum
        rw [← hi] at hmem
        exact Nat.lt_of_lt_of_le hmem.lt_stop hle
      · have hmem := hbucketed.maximum
        rw [← hi] at hmem
        exact Nat.lt_of_lt_of_le hmem.lt_stop hle
  card := by
    have hadd : (addBucketCandidates extra full.bucket).card ≤ extra.card + 4 :=
      card_foldl_addIndex _ _
    have hold := h.card
    omega
  extrema _ c hc := by
    rcases Nat.lt_succ_iff_lt_or_eq.mp hc with hc | rfl
    · exact (h.extrema hlt c hc).mono fun i hi => mem_addBucketCandidates.mpr (Or.inl hi)
    · intro i x hi hilt hx
      obtain ⟨j, hj, hmin⟩ := hbucketed.minimum.found hi hilt hx
      obtain ⟨m, hm, hmax⟩ := hbucketed.maximum.found hi hilt hx
      refine ⟨⟨j, mem_addBucketCandidates.mpr (Or.inr ?_), _, hmin⟩, m,
        mem_addBucketCandidates.mpr (Or.inr ?_), _, hmax⟩
      · rw [hj]
        simp only [List.mem_cons, true_or, or_true]
      · rw [hm]
        simp only [List.mem_cons, true_or, or_true]

/-- **One bucket.** -/
theorem Rounds.next (h : Rounds v n P b extra state)
    (hv : ∀ i x, v i = some x → Number.isFinite x = true) :
    ∃ extra', Rounds v n P (b + 1) extra' (scanBucket v n P state b) := by
  have hnew := h.scanned.renew h.scanned.candidates newBucketAccumulator
  obtain ⟨hscanned, hbucketed⟩ := scan_minutes hv (progress n P (b + 1) - progress n P b) hnew
    (bucketed_new _) (Nat.le_refl _)
  rw [Nat.add_sub_cancel' (progress_le_succ b), ← bucketMinutes_eq] at hscanned hbucketed
  unfold scanBucket
  split
  next hlt => exact ⟨_, h.keep hlt hscanned hbucketed⟩
  next hnot =>
    exact ⟨extra, hscanned, h.base, h.bound, Nat.le_trans h.card (by omega),
      fun hlt => absurd hlt hnot⟩

/-- **The whole loop.** -/
theorem rounds_scan (hn : 0 < n) (hv : ∀ i x, v i = some x → Number.isFinite x = true) :
    ∃ extra, Rounds v n P (bucketCount n P) extra (scan v n P) := by
  unfold scan
  induction bucketCount n P with
  | zero => exact ⟨_, rounds_new hn⟩
  | succ b ih =>
    obtain ⟨extra, h⟩ := ih
    rw [List.range_succ, List.foldl_append, List.foldl_cons, List.foldl_nil]
    exact h.next hv

end Buckets

end TinyProbe.Web
