import TinyProbe.Web.ChartScan

/-!
# Downsampling keeps the shape of the data

The points of a line are those of the full series at the candidates (`prepared_data`), and the
candidates keep the runs of the series (`keepsRuns`) and, where minutes are left out, an extremum of
each kind of every bucket. So the line has the shape of the series (`chart_keeps_shape`).

`MetricChart.tsx` marks a point without neighbours, which no line would show. It looks at the
neighbours in the downsampled data, and these are breaks exactly where the neighbouring minutes are
(`isolated_after_downsampling`).
-/

namespace TinyProbe.Web

open History
open TinyProbe.Runs TinyProbe.Extremum

variable {F : Type}

/-- The point of a minute. -/
def point (v : Nat → Option F) (fromUnix : Int) (i : Nat) : Int × Option F :=
  (timestamp fromUnix i, v i)

theorem timestamp_lt {fromUnix : Int} {i j : Nat} :
    timestamp fromUnix i < timestamp fromUnix j ↔ i < j := by
  simp only [timestamp]
  omega

/-- The timestamp tells the minute. -/
theorem point_inj {v : Nat → Option F} {fromUnix : Int} {i j : Nat}
    (h : point v fromUnix i = point v fromUnix j) : i = j := by
  have htime : timestamp fromUnix i = timestamp fromUnix j := congrArg Prod.fst h
  simp only [timestamp] at htime
  omega

section Shape

variable [Number F]

/-- The data have a minimum and a maximum of the values at the minutes, if there are values. -/
def HasExtrema (v : Nat → Option F) (fromUnix : Int) (data : List (Int × Option F))
    (minutes : List Nat) : Prop :=
  (∃ i ∈ minutes, Present v i) →
    (∃ j ∈ minutes, ∃ x, v j = some x ∧ point v fromUnix j ∈ data ∧
      ∀ i ∈ minutes, ∀ y, v i = some y → Number.lt y x = false) ∧
    (∃ j ∈ minutes, ∃ x, v j = some x ∧ point v fromUnix j ∈ data ∧
      ∀ i ∈ minutes, ∀ y, v i = some y → Number.lt x y = false)

/-- The data of a line have the shape of the series `v` of `n` minutes. -/
structure KeepsShape (v : Nat → Option F) (fromUnix : Int) (n P : Nat)
    (data : List (Int × Option F)) : Prop where
  increasing : data.Pairwise fun p q => p.1 < q.1
  values : ∀ p ∈ data, ∃ i < n, p = point v fromUnix i
  first : point v fromUnix 0 ∈ data
  last : point v fromUnix (n - 1) ∈ data
  between : ∀ k i j, data[k]? = some (point v fromUnix i) →
    data[k + 1]? = some (point v fromUnix j) → Present v i → Present v j →
      ∀ m, i < m → m < j → Present v m
  runs : ∀ i < n, RunStart (Present v) i ∨ RunEnd (Present v) n i ∨
    RunStart (fun j => ¬ Present v j) i → point v fromUnix i ∈ data
  buckets : P < n → ∀ b < bucketCount n P, HasExtrema v fromUnix data (bucketMinutes n P b)
  whole : P < n → HasExtrema v fromUnix data (List.range n)

/-! ## The candidates -/

variable {v : Nat → Option F} {n P : Nat} {extra : Finset Nat} {state : SeriesState F}

theorem zero_mem_initialCandidates : 0 ∈ initialCandidates n P := by
  unfold initialCandidates
  split
  next => exact Finset.mem_union_left _ (Finset.mem_insert_self 0 _)
  next => exact Finset.mem_insert_self 0 _

theorem last_mem_initialCandidates : n - 1 ∈ initialCandidates n P := by
  have hmem : n - 1 ∈ ({0, n - 1} : Finset Nat) :=
    Finset.mem_insert_of_mem (Finset.mem_singleton_self _)
  unfold initialCandidates
  split
  next => exact Finset.mem_union_left _ hmem
  next => exact hmem

/-- After the last bucket the candidates are the boundaries of runs and those added beside them. -/
theorem Rounds.mem (h : Rounds v n P (bucketCount n P) extra state) {i : Nat} :
    i ∈ state.candidates ↔ i ∈ extra ∨ Boundary v n i := by
  have hcandidates := h.scanned.candidates i
  rwa [progress_last] at hcandidates

/-- **The candidates keep the runs.** -/
theorem Rounds.keepsRuns (h : Rounds v n P (bucketCount n P) extra state) :
    KeepsRuns (Present v) n (· ∈ state.candidates) where
  bound i hi := (h.mem.mp hi).elim (h.bound i) Boundary.lt
  first _ := h.mem.mpr (Or.inl (h.base zero_mem_initialCandidates))
  last _ := h.mem.mpr (Or.inl (h.base last_mem_initialCandidates))
  runStart i hi hstart := by
    rcases hstart with ⟨hpresent, rfl | hprevious⟩
    · exact h.mem.mpr (Or.inl (h.base zero_mem_initialCandidates))
    · cases i with
      | zero => exact absurd hpresent hprevious
      | succ i => exact h.mem.mpr (Or.inr (.after hi hprevious hpresent))
  runEnd i hi hend := by
    rcases hend with ⟨hpresent, rfl | hnext⟩
    · exact h.mem.mpr (Or.inl (h.base last_mem_initialCandidates))
    · by_cases hlast : i + 1 = n
      · subst hlast
        exact h.mem.mpr (Or.inl (h.base last_mem_initialCandidates))
      · exact h.mem.mpr (Or.inr (.before (by omega) hpresent hnext))
  gapStart i hi hstart := h.mem.mpr (Or.inr (.gap hi hstart))

/-- The candidates in their order. -/
def listing (v : Nat → Option F) (n P : Nat) : List Nat := (scan v n P).candidates.sort (· ≤ ·)

theorem listing_pairwise : (listing v n P).Pairwise (· < ·) :=
  (Finset.sortedLT_sort _).pairwise

/-- The listing has the candidates of the scan. -/
theorem mem_listing {i : Nat} : i ∈ listing v n P ↔ i ∈ (scan v n P).candidates :=
  Finset.mem_sort _

section Listing

variable (hn : 0 < n) (hv : ∀ i x, v i = some x → Number.isFinite x = true)

include hn hv

/-- Both ends of each run of present minutes are listed, and the start of each gap. -/
theorem listing_keepsRuns : KeepsRuns (Present v) n (· ∈ listing v n P) := by
  obtain ⟨extra, h⟩ := rounds_scan (P := P) hn hv
  simp only [mem_listing]
  exact h.keepsRuns

omit hn hv in
theorem adjacent_listing {k i j : Nat} (hi : (listing v n P)[k]? = some i)
    (hj : (listing v n P)[k + 1]? = some j) : Adjacent (· ∈ listing v n P) i j :=
  adjacent_of_listing listing_pairwise (fun _ => Iff.rfl) hi hj

/-- **The listing has the extrema of every bucket** once minutes are left out. -/
theorem listing_extrema (hlt : P < n) {b : Nat} (hb : b < bucketCount n P) :
    Extrema v (scan v n P).candidates (progress n P b) (progress n P (b + 1)) := by
  obtain ⟨extra, h⟩ := rounds_scan (P := P) hn hv
  exact (h.extrema hlt b hb).mono fun i hi => h.mem.mpr (Or.inl hi)

omit [Number F] hn hv in
/-- Every minute is in a bucket. -/
theorem exists_bucket (P : Nat) {i : Nat} (hi : i < n) :
    ∃ b < bucketCount n P, progress n P b ≤ i ∧ i < progress n P (b + 1) := by
  have hmem : i ∈ (List.range (bucketCount n P)).flatMap (bucketMinutes n P) := by
    rw [buckets_cover]
    exact List.mem_range.mpr hi
  obtain ⟨b, hb, hib⟩ := List.mem_flatMap.mp hmem
  exact ⟨b, List.mem_range.mp hb, mem_bucketMinutes_iff.mp hib⟩

/-- **And those of the whole series**: the bucket of an extremum of the whole has kept one. -/
theorem listing_extrema_whole (hlt : P < n) : Extrema v (scan v n P).candidates 0 n := by
  intro i x hi hin hx
  constructor
  · obtain ⟨m, z, hm⟩ := exists_foremost ranking_lt hv hi hin hx
    obtain ⟨b, hb, hle, hmlt⟩ := exists_bucket P hm.lt_stop
    obtain ⟨⟨j, hj, y, hy⟩, _⟩ := listing_extrema hn hv hlt hb m z hle hmlt hm.value
    have hjn := Nat.lt_of_lt_of_le hy.lt_stop (progress_le (n := n) (P := P) (b + 1))
    exact ⟨j, hj, y, hm.widen ranking_lt hv hy hle hmlt (Nat.zero_le j) hjn⟩
  · obtain ⟨m, z, hm⟩ := exists_foremost ranking_gt hv hi hin hx
    obtain ⟨b, hb, hle, hmlt⟩ := exists_bucket P hm.lt_stop
    obtain ⟨_, j, hj, y, hy⟩ := listing_extrema hn hv hlt hb m z hle hmlt hm.value
    have hjn := Nat.lt_of_lt_of_le hy.lt_stop (progress_le (n := n) (P := P) (b + 1))
    exact ⟨j, hj, y, hm.widen ranking_gt hv hy hle hmlt (Nat.zero_le j) hjn⟩

end Listing

/-! ## The line -/

/-- The data of a line: the points of the full series at the candidates. -/
def line (v : Nat → Option F) (fromUnix : Int) (n P : Nat) : List (Int × Option F) :=
  (listing v n P).map (point v fromUnix)

variable {fromUnix : Int}

/-- A candidate is a point of the line. -/
theorem mem_line {i : Nat} (hi : i ∈ (scan v n P).candidates) :
    point v fromUnix i ∈ line v fromUnix n P :=
  List.mem_map_of_mem (mem_listing.mpr hi)

/-- A point of the line is that of a place of the listing. -/
theorem line_getElem? {k i : Nat} (h : (line v fromUnix n P)[k]? = some (point v fromUnix i)) :
    (listing v n P)[k]? = some i := by
  rw [line, List.getElem?_map] at h
  obtain ⟨j, hj, hpoint⟩ := Option.map_eq_some_iff.mp h
  rwa [← point_inj hpoint]

theorem Extrema.hasExtrema {start stop : Nat} {minutes : List Nat}
    (h : Extrema v (scan v n P).candidates start stop)
    (hminutes : ∀ i, i ∈ minutes ↔ start ≤ i ∧ i < stop) :
    HasExtrema v fromUnix (line v fromUnix n P) minutes := by
  rintro ⟨i, hi, hpresent⟩
  obtain ⟨x, hx⟩ := present_iff.mp hpresent
  obtain ⟨hle, hlt⟩ := (hminutes i).mp hi
  obtain ⟨⟨j, hj, y, hmin⟩, ⟨m, hm, z, hmax⟩⟩ := h i x hle hlt hx
  refine ⟨⟨j, (hminutes j).mpr ⟨hmin.start_le, hmin.lt_stop⟩, y, hmin.value, mem_line hj, ?_⟩,
    m, (hminutes m).mpr ⟨hmax.start_le, hmax.lt_stop⟩, z, hmax.value, mem_line hm, ?_⟩
  · intro a ha w hw
    obtain ⟨hale, halt⟩ := (hminutes a).mp ha
    exact hmin.foremost a w hale halt hw
  · intro a ha w hw
    obtain ⟨hale, halt⟩ := (hminutes a).mp ha
    exact hmax.foremost a w hale halt hw

/-- **A line has the shape of its series.** -/
theorem line_keepsShape (hn : 0 < n) (hv : ∀ i x, v i = some x → Number.isFinite x = true) :
    KeepsShape v fromUnix n P (line v fromUnix n P) where
  increasing := List.pairwise_map.mpr (listing_pairwise.imp timestamp_lt.mpr)
  values p hp := by
    obtain ⟨i, hi, rfl⟩ := List.mem_map.mp hp
    exact ⟨i, (listing_keepsRuns hn hv).bound i hi, rfl⟩
  first := List.mem_map_of_mem ((listing_keepsRuns hn hv).first hn)
  last := List.mem_map_of_mem ((listing_keepsRuns hn hv).last hn)
  between k i j hi hj hpresent _ := (listing_keepsRuns hn hv).between
    (adjacent_listing (line_getElem? hi) (line_getElem? hj)) hpresent
  runs i hi h := by
    apply List.mem_map_of_mem
    rcases h with h | h | h
    · exact (listing_keepsRuns hn hv).runStart i hi h
    · exact (listing_keepsRuns hn hv).runEnd i hi h
    · exact (listing_keepsRuns hn hv).gapStart i hi h
  buckets hlt b hb := (listing_extrema hn hv hlt hb).hasExtrema fun _ => mem_bucketMinutes_iff
  whole hlt := (listing_extrema_whole hn hv hlt).hasExtrema fun i => by
    rw [List.mem_range]
    exact ⟨fun hi => ⟨Nat.zero_le i, hi⟩, fun hi => hi.2⟩

end Shape

/-! ## The chart -/

section Chart

variable [Number F] {history : HistoryResponse F}

/-- A value that is drawn is finite. -/
theorem valueAt_isFinite {definition : MetricSeriesDefinition F} (i : Nat) (x : F)
    (h : valueAt definition history i = some x) : Number.isFinite x = true :=
  selectedValue_isFinite h

/-- The series of a response as lines. -/
def lineOf (definition : MetricSeriesDefinition F) (history : HistoryResponse F)
    (width : JSNumber) : List (Int × Option F) :=
  line (valueAt definition history) history.fromUnix.toInt (minuteCount history)
    (chartPointBudget width)

/-- **The prepared data are the line.** -/
theorem prepared_data (hvalid : isValidHistoryRange history.fromUnix.toInt history.toUnix.toInt)
    (definition : MetricSeriesDefinition F) (width : JSNumber) :
    (prepared history.fromUnix.toInt (aligned history).records definition
      (scan (valueAt definition history) (minuteCount history) (chartPointBudget width))).data =
        lineOf definition history width := by
  refine List.map_congr_left fun i hi => ?_
  have hin := (listing_keepsRuns (minuteCount_pos hvalid) valueAt_isFinite).bound i hi
  rw [aligned_records hvalid hin]
  rfl

/-- **Downsampled charts keep the shape of the data**, for every valid response and every width. A
line has its minutes in order, each with the value of the series, among them the first and the last,
both ends of every run of values and the beginning of every gap. Two neighbours with values have no
gap between them, and of every bucket and of the whole there is a minimum and a maximum. -/
theorem chart_keeps_shape (history : HistoryResponse F)
    (hvalid : isValidHistoryRange history.fromUnix.toInt history.toUnix.toInt = true)
    (definitions : List (MetricSeriesDefinition F)) (width : JSNumber) :
    let chart := prepareChartSeries history definitions width
    chart.valid = true ∧ chart.minuteCount = minuteCount history ∧
      List.Forall₂ (fun definition series => series.toMetricSeriesDefinition = definition ∧
        KeepsShape (valueAt definition history) history.fromUnix.toInt (minuteCount history)
          (chartPointBudget width) series.data) definitions chart.series := by
  rw [prepareChartSeries_eq hvalid]
  refine ⟨rfl, rfl, List.forall₂_map_right_iff.mpr (List.forall₂_same.mpr fun definition _ => ?_)⟩
  refine ⟨rfl, ?_⟩
  rw [prepared_data hvalid]
  exact line_keepsShape (minuteCount_pos hvalid) valueAt_isFinite

end Chart

/-- A record of a CPU reading. -/
def cpuRecord (minuteUnix : Int) (average : ℚ) : MinuteRecord JSNumber :=
  let zero : Pair JSNumber := ⟨.fin 0, .fin 0⟩
  { serverID := 7, minuteUnix
    payload :=
      { cpuUsage := ⟨.fin average, .fin average⟩, load1 := zero, load5 := zero, load15 := zero
        memoryUsage := zero, swapUsage := zero, disks := [], diskReadBPS := zero
        diskWriteBPS := zero, uploadBPS := zero, downloadBPS := zero, totalUpload := 0
        totalDownload := 0 } }

/-- The chart of the CPU average. -/
def cpuAverage : MetricSeriesDefinition JSNumber where
  name := "CPU 平均"
  role := .primary
  pairOrdinal := 0
  selector record := .ok (some record.payload.cpuUsage.average)

/-- Two days of which the first thirty hours and the last minute were recorded. The last minute
comes first in the list. -/
def cpuHistory : HistoryResponse JSNumber where
  fromUnix := 0
  toUnix := 172740
  points :=
    cpuRecord 172740 30 :: (List.range 1800).map fun i : Nat => cpuRecord (i * 60) (i % 60 : Nat)

/-- The chart of the two days has fewer points than they have minutes. -/
theorem cpuHistory_long : chartPointBudget .nan < minuteCount cpuHistory := by
  have hbudget : chartPointBudget .nan = 1280 := by
    norm_num [chartPointBudget, safeWidth, defaultChartWidth, pointsPerPixel, round, minPointBudget,
      maxPointBudget]
    rfl
  have hcount : minuteCount cpuHistory = 2880 := by decide
  rw [hbudget, hcount]
  decide

theorem chart_keeps_shape_cpu :
    isValidHistoryRange cpuHistory.fromUnix.toInt cpuHistory.toUnix.toInt = true ∧
      chartPointBudget .nan < minuteCount cpuHistory ∧
      List.Forall₂ (fun definition series => series.toMetricSeriesDefinition = definition ∧
        KeepsShape (valueAt definition cpuHistory) cpuHistory.fromUnix.toInt
          (minuteCount cpuHistory) (chartPointBudget .nan) series.data)
        [cpuAverage] (prepareChartSeries cpuHistory [cpuAverage] .nan).series :=
  ⟨by decide, cpuHistory_long, (chart_keeps_shape cpuHistory (by decide) [cpuAverage] .nan).2.2⟩

/-! ## Isolated points -/

section Isolated

variable {v : Nat → Option F} {n P : Nat} {fromUnix : Int}

/-- `ISOLATED_POINT_SYMBOL_SIZE`. -/
def isolatedPointSymbolSizeOn : Nat := 5

/-- `point?.[1] === null`. -/
def isBreak (point : Option (Int × Option F)) : Bool :=
  match point with
  | some (_, none) => true
  | _ => false

def isolatedPointSymbolSize (data : List (Int × Option F)) (dataIndex : Nat) : Nat :=
  match data[dataIndex]? with
  | none => 0
  | some (_, none) => 0
  | some (_, some _) =>
    let previousIsBreak := dataIndex == 0 || isBreak data[dataIndex - 1]?
    let nextIsBreak := dataIndex == data.length - 1 || isBreak data[dataIndex + 1]?
    if previousIsBreak && nextIsBreak then isolatedPointSymbolSizeOn else 0

theorem isBreak_point {i : Nat} :
    isBreak (some (point v fromUnix i)) = true ↔ ¬ Present v i := by
  rw [not_present_iff, point]
  cases h : v i with
  | none => exact ⟨fun _ => rfl, fun _ => rfl⟩
  | some x => exact ⟨(fun hfalse => by cases hfalse), fun hfalse => by cases hfalse⟩

/-- When the marker of a point is drawn. -/
theorem isolatedPointSymbolSize_ne_zero {data : List (Int × Option F)} {k i : Nat}
    (h : data[k]? = some (point v fromUnix i)) (hi : Present v i) :
    isolatedPointSymbolSize data k ≠ 0 ↔ (k = 0 ∨ isBreak data[k - 1]? = true) ∧
      (k = data.length - 1 ∨ isBreak data[k + 1]? = true) := by
  obtain ⟨x, hx⟩ := present_iff.mp hi
  have hpoint : data[k]? = some (timestamp fromUnix i, some x) := by rw [h, point, hx]
  rw [isolatedPointSymbolSize, hpoint]
  simp only [isolatedPointSymbolSizeOn, ne_eq, ite_eq_right_iff, Nat.reduceEqDiff, imp_false,
    not_not, Bool.and_eq_true, Bool.or_eq_true, beq_iff_eq]

variable [Number F] (hn : 0 < n) (hv : ∀ i x, v i = some x → Number.isFinite x = true)

include hn hv

/-- The first place of the listing is the first minute. -/
theorem listing_zero {i : Nat} (hi : (listing v n P)[0]? = some i) : i = 0 := by
  obtain ⟨k, hk⟩ := List.mem_iff_getElem?.mp ((listing_keepsRuns (P := P) hn hv).first hn)
  by_contra hne
  have hlt := (lt_iff_of_listing listing_pairwise hk hi).mp (Nat.pos_of_ne_zero hne)
  exact Nat.not_lt_zero k hlt

/-- And its last place the last minute. -/
theorem listing_last {i : Nat} (hi : (listing v n P)[(listing v n P).length - 1]? = some i) :
    i + 1 = n := by
  obtain ⟨k, hk⟩ := List.mem_iff_getElem?.mp ((listing_keepsRuns (P := P) hn hv).last hn)
  have hin := (listing_keepsRuns (P := P) hn hv).bound i (List.mem_of_getElem? hi)
  obtain ⟨hklt, _⟩ := List.getElem?_eq_some_iff.mp hk
  by_contra hne
  have hlt := (lt_iff_of_listing listing_pairwise hi hk).mp (by omega)
  omega

/-- What comes before a point in the line is a break if the minute before it is. -/
theorem previous_isBreak {k i : Nat} (hk : (listing v n P)[k]? = some i) :
    (k = 0 ∨ isBreak (line v fromUnix n P)[k - 1]? = true) ↔ (i = 0 ∨ v (i - 1) = none) := by
  cases k with
  | zero => exact ⟨fun _ => Or.inl (listing_zero hn hv hk), fun _ => Or.inl rfl⟩
  | succ k =>
    obtain ⟨hlt, _⟩ := List.getElem?_eq_some_iff.mp hk
    have hj := List.getElem?_eq_getElem (Nat.lt_of_succ_lt hlt)
    have hadjacent := adjacent_listing hj hk
    have hprevious := (listing_keepsRuns (P := P) hn hv).previous hadjacent
    have hpos := hadjacent.lt
    rw [Nat.add_sub_cancel, line, List.getElem?_map, hj, Option.map_some, isBreak_point, hprevious,
      not_present_iff]
    exact or_congr ⟨fun h => absurd h (Nat.succ_ne_zero k), fun h => by omega⟩ Iff.rfl

/-- And what comes after it if the minute after it is. -/
theorem next_isBreak {k i : Nat} (hk : (listing v n P)[k]? = some i) (hi : Present v i) :
    (k = (line v fromUnix n P).length - 1 ∨ isBreak (line v fromUnix n P)[k + 1]? = true) ↔
      (i + 1 = n ∨ v (i + 1) = none) := by
  have hlength : (line v fromUnix n P).length = (listing v n P).length := List.length_map _
  obtain ⟨hlt, _⟩ := List.getElem?_eq_some_iff.mp hk
  rw [hlength]
  by_cases hlast : k = (listing v n P).length - 1
  · subst hlast
    exact ⟨fun _ => Or.inl (listing_last hn hv hk), fun _ => Or.inl rfl⟩
  · have hnext : k + 1 < (listing v n P).length := by omega
    have hj := List.getElem?_eq_getElem hnext
    have hadjacent := adjacent_listing hk hj
    have hiff := (listing_keepsRuns (P := P) hn hv).next hadjacent hi
    have hpos := hadjacent.lt
    have hjn := (listing_keepsRuns (P := P) hn hv).bound _ hadjacent.right
    rw [line, List.getElem?_map, hj, Option.map_some, isBreak_point, hiff, not_present_iff]
    exact or_congr ⟨fun h => absurd h hlast, fun h => by omega⟩ Iff.rfl

end Isolated

/-- A point of a series with a value is marked if and only if the minutes before and after its own
have no value or do not exist. -/
def MarksIsolated (v : Nat → Option F) (fromUnix : Int) (n : Nat) (data : List (Int × Option F)) :
    Prop :=
  ∀ k time x, data[k]? = some (time, some x) → ∃ i < n, time = timestamp fromUnix i ∧
    (isolatedPointSymbolSize data k ≠ 0 ↔
      (i = 0 ∨ v (i - 1) = none) ∧ (i + 1 = n ∨ v (i + 1) = none))

/-- On the line a point is marked exactly if its minute has no neighbour with a value. -/
theorem line_marksIsolated [Number F] {v : Nat → Option F} {n P : Nat} {fromUnix : Int} (hn : 0 < n)
    (hv : ∀ i x, v i = some x → Number.isFinite x = true) :
    MarksIsolated v fromUnix n (line v fromUnix n P) := by
  intro k time x hk
  obtain ⟨i, hi, heq⟩ := (line_keepsShape hn hv).values _ (List.mem_of_getElem? hk)
  have hpresent : Present v i := present_iff.mpr ⟨x, (congrArg Prod.snd heq).symm⟩
  rw [heq] at hk
  refine ⟨i, hi, congrArg Prod.fst heq, ?_⟩
  rw [isolatedPointSymbolSize_ne_zero hk hpresent, previous_isBreak hn hv (line_getElem? hk),
    next_isBreak hn hv (line_getElem? hk) hpresent]

/-- **Isolated samples are marked correctly after downsampling.** A point of a prepared series is
marked if and only if the minutes before and after its own have no value or do not exist. The chart
looks at the neighbours in the line, and where a minute beside the point has no value the line has
that gap. -/
theorem isolated_after_downsampling [Number F] (history : HistoryResponse F)
    (hvalid : isValidHistoryRange history.fromUnix.toInt history.toUnix.toInt = true)
    (definitions : List (MetricSeriesDefinition F)) (width : JSNumber) :
    List.Forall₂ (fun definition series => series.toMetricSeriesDefinition = definition ∧
        MarksIsolated (valueAt definition history) history.fromUnix.toInt (minuteCount history)
          series.data)
      definitions (prepareChartSeries history definitions width).series := by
  rw [prepareChartSeries_eq hvalid]
  refine List.forall₂_map_right_iff.mpr (List.forall₂_same.mpr fun definition _ => ⟨rfl, ?_⟩)
  rw [prepared_data hvalid]
  exact line_marksIsolated (minuteCount_pos hvalid) valueAt_isFinite

theorem isolated_after_downsampling_cpu :
    isValidHistoryRange cpuHistory.fromUnix.toInt cpuHistory.toUnix.toInt = true ∧
      chartPointBudget .nan < minuteCount cpuHistory ∧
      List.Forall₂ (fun definition series => series.toMetricSeriesDefinition = definition ∧
          MarksIsolated (valueAt definition cpuHistory) cpuHistory.fromUnix.toInt
            (minuteCount cpuHistory) series.data)
        [cpuAverage] (prepareChartSeries cpuHistory [cpuAverage] .nan).series :=
  ⟨by decide, cpuHistory_long, isolated_after_downsampling cpuHistory (by decide) [cpuAverage] .nan⟩

end TinyProbe.Web
