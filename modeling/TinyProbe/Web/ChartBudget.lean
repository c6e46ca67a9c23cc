import TinyProbe.Web.ChartShape

/-!
# The size of a chart

The comment over `prepareChartSeries` argues that a line has at most `4B + 2 + G + 2R` points, for
`B` buckets, `G` gaps and `R` runs of values. Each candidate has a source: an endpoint, a place of a
bucket, the first minute of a gap, the first minute of a run after a gap, the last minute of a run
before one (`candidates_subset`).
-/

namespace TinyProbe.Web

open History
open TinyProbe.Runs

variable {F : Type}

/-- The budget lies between 160 and 1600 points, whatever the width. -/
theorem chartPointBudget_bounds (width : JSNumber) :
    160 ≤ chartPointBudget width ∧ chartPointBudget width ≤ 1600 := by
  simp only [chartPointBudget, minPointBudget, maxPointBudget]
  omega

/-- The number of gaps in a series of `n` minutes. -/
def gapCount (v : Nat → Option F) (n : Nat) : Nat := (runStarts (fun i => ¬ Present v i) n).card

/-- The number of runs of values. -/
def finiteRunCount (v : Nat → Option F) (n : Nat) : Nat := (runStarts (Present v) n).card

section Line

variable [Number F] {v : Nat → Option F} {n P : Nat} {extra : Finset Nat} {state : SeriesState F}

/-- **Every candidate has a source.** -/
theorem Rounds.candidates_subset (h : Rounds v n P (bucketCount n P) extra state) :
    state.candidates ⊆ extra ∪ (runStarts (fun i => ¬ Present v i) n ∪
      (runStarts (Present v) n ∪ runEnds (Present v) n)) := by
  intro i hi
  simp only [Finset.mem_union]
  rcases h.mem.mp hi with hextra | hb
  · exact Or.inl hextra
  · cases hb with
    | gap hlt hstart => exact Or.inr (Or.inl (mem_runStarts.mpr ⟨hlt, hstart⟩))
    | after hlt hprevious hpresent =>
      exact Or.inr (Or.inr (Or.inl (mem_runStarts.mpr ⟨hlt, hpresent, Or.inr hprevious⟩)))
    | before hlt hpresent hnext =>
      exact Or.inr (Or.inr (Or.inr (mem_runEnds.mpr ⟨by omega, hpresent, Or.inr hnext⟩)))

/-- At most the first and the last minute are candidates from the start. -/
theorem card_initialCandidates (hlt : P < n) : (initialCandidates n P).card ≤ 2 := by
  rw [initialCandidates, if_neg (Nat.not_le_of_gt hlt)]
  exact Finset.card_le_two

/-- A line has four points for a bucket, the ends, and those that keep gaps and runs. -/
theorem length_line (hn : 0 < n) (hv : ∀ i x, v i = some x → Number.isFinite x = true)
    (fromUnix : Int) (hlt : P < n) :
    (line v fromUnix n P).length ≤
      4 * bucketCount n P + 2 + gapCount v n + 2 * finiteRunCount v n := by
  obtain ⟨extra, h⟩ := rounds_scan (P := P) hn hv
  have hsources := Finset.card_le_card h.candidates_subset
  have hunion₁ := Finset.card_union_le extra (runStarts (fun i => ¬ Present v i) n ∪
    (runStarts (Present v) n ∪ runEnds (Present v) n))
  have hunion₂ := Finset.card_union_le (runStarts (fun i => ¬ Present v i) n)
    (runStarts (Present v) n ∪ runEnds (Present v) n)
  have hunion₃ := Finset.card_union_le (runStarts (Present v) n) (runEnds (Present v) n)
  have hends := card_runEnds_le (q := Present v) (n := n)
  have hextra := h.card
  have hinitial := card_initialCandidates hlt
  rw [line, List.length_map, listing, Finset.length_sort, gapCount, finiteRunCount]
  omega

/-- Within the budget the listing has every minute. -/
theorem listing_eq_range (hn : 0 < n) (hv : ∀ i x, v i = some x → Number.isFinite x = true)
    (hle : n ≤ P) : listing v n P = List.range n := by
  obtain ⟨extra, h⟩ := rounds_scan (P := P) hn hv
  have hcandidates : (scan v n P).candidates = Finset.range n := by
    ext i
    rw [Finset.mem_range]
    refine ⟨h.keepsRuns.bound i, fun hi => h.mem.mpr (Or.inl (h.base ?_))⟩
    rw [initialCandidates, if_pos hle]
    exact Finset.mem_union_right _ (Finset.mem_range.mpr hi)
  rw [listing, hcandidates, Finset.sort_range]

/-- Beyond the budget there is a bucket for every four points of it, but for two. -/
theorem bucketCount_of_lt (hP : 160 ≤ P) (hlt : P < n) : bucketCount n P = (P - 2) / 4 := by
  rw [bucketCount, if_neg (Nat.not_le_of_gt hlt), finiteCandidatesPerBucket]
  omega

/-- The size bound of a series: `B` is the number of buckets. -/
structure WithinBudget (v : Nat → Option F) (n P : Nat) (data : List (Int × Option F)) : Prop where
  full : n ≤ P → data.length = n
  bound : P < n → data.length ≤ 4 * ((P - 2) / 4) + 2 + gapCount v n + 2 * finiteRunCount v n
  budget : 4 * ((P - 2) / 4) + 2 + gapCount v n + 2 * finiteRunCount v n ≤
    P + gapCount v n + 2 * finiteRunCount v n
  runs : finiteRunCount v n ≤ gapCount v n + 1

/-- The line of finite values is within its budget. -/
theorem line_withinBudget (hn : 0 < n) (hv : ∀ i x, v i = some x → Number.isFinite x = true)
    (hP : 160 ≤ P) (fromUnix : Int) : WithinBudget v n P (line v fromUnix n P) where
  full hle := by rw [line, listing_eq_range hn hv hle, List.length_map, List.length_range]
  bound hlt := by
    rw [← bucketCount_of_lt hP hlt]
    exact length_line hn hv fromUnix hlt
  budget := by omega
  runs := card_runStarts_le

end Line

/-- **The documented size bound holds.** A series within its budget is drawn minute by minute.
Beyond it a line has at most four points for each bucket, the two ends, one for each gap and two for
each run of values, and the buckets cover every minute exactly once. -/
theorem chart_within_budget [Number F] (history : HistoryResponse F)
    (hvalid : isValidHistoryRange history.fromUnix.toInt history.toUnix.toInt = true)
    (definitions : List (MetricSeriesDefinition F)) (width : JSNumber) :
    (160 ≤ chartPointBudget width ∧ chartPointBudget width ≤ 1600) ∧
      (prepareChartSeries history definitions width).pointBudget = chartPointBudget width ∧
      List.Forall₂ (fun definition series => series.toMetricSeriesDefinition = definition ∧
          WithinBudget (valueAt definition history) (minuteCount history) (chartPointBudget width)
            series.data)
        definitions (prepareChartSeries history definitions width).series ∧
      (List.range (bucketCount (minuteCount history) (chartPointBudget width))).flatMap
          (bucketMinutes (minuteCount history) (chartPointBudget width)) =
        List.range (minuteCount history) := by
  rw [prepareChartSeries_eq hvalid]
  refine ⟨chartPointBudget_bounds width, rfl,
    List.forall₂_map_right_iff.mpr (List.forall₂_same.mpr fun definition _ => ⟨rfl, ?_⟩),
    buckets_cover _ _⟩
  rw [prepared_data hvalid]
  exact line_withinBudget (minuteCount_pos hvalid) valueAt_isFinite
    (chartPointBudget_bounds width).1 _

/-- Two days in a chart of unknown width. -/
theorem chart_within_budget_cpu :
    isValidHistoryRange cpuHistory.fromUnix.toInt cpuHistory.toUnix.toInt = true ∧
      chartPointBudget .nan < minuteCount cpuHistory ∧
      List.Forall₂ (fun definition series => series.toMetricSeriesDefinition = definition ∧
          WithinBudget (valueAt definition cpuHistory) (minuteCount cpuHistory)
            (chartPointBudget .nan) series.data)
        [cpuAverage] (prepareChartSeries cpuHistory [cpuAverage] .nan).series :=
  ⟨by decide, cpuHistory_long, (chart_within_budget cpuHistory (by decide) [cpuAverage] .nan).2.2.1⟩

end TinyProbe.Web
