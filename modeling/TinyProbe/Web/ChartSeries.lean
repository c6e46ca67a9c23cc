import TinyProbe.Base.Number
import TinyProbe.Lib.Stream
import TinyProbe.History.Timeline
import Mathlib.Data.Finset.Sort
import Mathlib.Data.Rat.Floor

/-!
# The series of a chart

`prepareChartSeries` of `chartSeries.ts`: a response of up to thirty days becomes a few hundred
points for each series. One loop over the minutes, cut into buckets, goes through all series at
once; each keeps the places that its line needs and the sums of its statistics (`SeriesState`).

What the loop is about is one sequence for each series, its value at every minute of the range
(`valueAt`): the selected value of the last record of that minute, if it is finite. The series do not
touch one another (`prepareChartSeries_eq`), so what the loop does is said for a single one
(`scan`).

`candidates` is a set of the source whose order the sort forgets. A `minuteUnix` that is no safe
integer is skipped by the index whatever it is, so an unsafe integer stands for it. `Math.ceil` of a
quotient of two numbers this small is that of the exact quotient.
-/

namespace TinyProbe.Web

open History
open TinyProbe.Stream

variable {F : Type}

inductive MetricSeriesRole where
  | primary
  | maximum
  | context
  | contextMaximum
deriving DecidableEq

/-- `MetricSeriesDefinition`. A selector is a function of the point; it may throw. -/
structure MetricSeriesDefinition (F : Type) where
  name : String
  role : MetricSeriesRole
  pairOrdinal : Nat
  selector : MinuteRecord F → Except Unit (Option F)

structure MetricSeriesStats (F : Type) where
  current : Option F
  average : Option F
  maximum : Option F

structure PreparedMetricSeries (F : Type) extends MetricSeriesDefinition F where
  data : List (Int × Option F)
  stats : MetricSeriesStats F

structure PreparedChartSeries (F : Type) where
  valid : Bool
  minuteCount : Nat
  pointBudget : Nat
  series : List (PreparedMetricSeries F)

def minPointBudget : Int := 160

def maxPointBudget : Int := 1600

def defaultChartWidth : ℚ := 640

def pointsPerPixel : ℚ := 2

def finiteCandidatesPerBucket : Nat := 4

/-- `safeWidth` of `chartPointBudget`. -/
def safeWidth (width : JSNumber) : ℚ :=
  match width with
  | .fin q => if 0 < q then q else defaultChartWidth
  | _ => defaultChartWidth

/-- `Math.round`. -/
def round (q : ℚ) : Int := ⌊q + 1 / 2⌋

def chartPointBudget (width : JSNumber) : Nat :=
  (min maxPointBudget (max minPointBudget (round (safeWidth width * pointsPerPixel)))).toNat

/-! ## The loop -/

section Loop

variable [Number F]

def selectedValue (definition : MetricSeriesDefinition F) (point : Option (MinuteRecord F)) :
    Option F :=
  match point with
  | none => none
  | some point =>
    match definition.selector point with
    | .error _ => none
    | .ok none => none
    | .ok (some value) => if Number.isFinite value then some value else none

structure StatsAccumulator (F : Type) where
  sum : F
  count : Nat
  maximum : Option F
  current : Option F

structure BucketAccumulator (F : Type) where
  first : Option Nat
  last : Option Nat
  minimumIndex : Option Nat
  minimumValue : F
  maximumIndex : Option Nat
  maximumValue : F

def newBucketAccumulator : BucketAccumulator F where
  first := none
  last := none
  minimumIndex := none
  minimumValue := Number.posInf
  maximumIndex := none
  maximumValue := Number.negInf

/-- What the loop keeps of one series, the entries of its five arrays. -/
structure SeriesState (F : Type) where
  candidates : Finset Nat
  aggregate : StatsAccumulator F
  gapOpen : Bool
  lastFiniteIndex : Option Nat
  bucket : BucketAccumulator F

/-- The set with an index of a bucket. -/
def addIndex (candidates : Finset Nat) (index : Option Nat) : Finset Nat :=
  match index with
  | none => candidates
  | some index => insert index candidates

def addBucketCandidates (candidates : Finset Nat) (bucket : BucketAccumulator F) : Finset Nat :=
  [bucket.first, bucket.last, bucket.minimumIndex, bucket.maximumIndex].foldl addIndex candidates

def StatsAccumulator.add (aggregate : StatsAccumulator F) (value : F) : StatsAccumulator F where
  current := some value
  sum := Number.add aggregate.sum value
  count := aggregate.count + 1
  maximum :=
    match aggregate.maximum with
    | none => some value
    | some maximum => some (Number.max maximum value)

def BucketAccumulator.add (bucket : BucketAccumulator F) (index : Nat) (value : F) :
    BucketAccumulator F where
  first := bucket.first.or (some index)
  last := some index
  minimumIndex := if Number.lt value bucket.minimumValue then some index else bucket.minimumIndex
  minimumValue := if Number.lt value bucket.minimumValue then value else bucket.minimumValue
  maximumIndex := if Number.lt bucket.maximumValue value then some index else bucket.maximumIndex
  maximumValue := if Number.lt bucket.maximumValue value then value else bucket.maximumValue

/-- The body of the inner loop, for one series. -/
def visit (value : Option F) (index : Nat) (state : SeriesState F) : SeriesState F :=
  match value with
  | none =>
    if state.gapOpen then state
    else
      { state with
        candidates := insert index (addIndex state.candidates state.lastFiniteIndex)
        gapOpen := true }
  | some value =>
    { candidates := if state.gapOpen then insert index state.candidates else state.candidates
      gapOpen := false
      lastFiniteIndex := some index
      aggregate := state.aggregate.add value
      bucket := state.bucket.add index value }

/-- The sets before the loop. -/
def initialCandidates (minuteCount pointBudget : Nat) : Finset Nat :=
  let endpoints := {0, minuteCount - 1}
  if minuteCount ≤ pointBudget then endpoints ∪ Finset.range minuteCount else endpoints

def SeriesState.new (minuteCount pointBudget : Nat) : SeriesState F where
  candidates := initialCandidates minuteCount pointBudget
  aggregate := { sum := Number.ofNat 0, count := 0, maximum := none, current := none }
  gapOpen := false
  lastFiniteIndex := none
  bucket := newBucketAccumulator

def bucketCount (minuteCount pointBudget : Nat) : Nat :=
  if minuteCount ≤ pointBudget then 1
  else max 1 ((pointBudget - 2) / finiteCandidatesPerBucket)

def bucketSize (minuteCount pointBudget : Nat) : Nat :=
  (minuteCount + bucketCount minuteCount pointBudget - 1) / bucketCount minuteCount pointBudget

/-- The minutes of a bucket. -/
def bucketMinutes (minuteCount pointBudget bucketIndex : Nat) : List Nat :=
  let start := bucketIndex * bucketSize minuteCount pointBudget
  let stop := min minuteCount (start + bucketSize minuteCount pointBudget)
  List.range' start (stop - start)

/-- The loop over the series at one minute. -/
def visitMinute (definitions : List (MetricSeriesDefinition F))
    (records : List (Option (MinuteRecord F))) (states : List (SeriesState F)) (index : Nat) :
    List (SeriesState F) :=
  let point := records[index]?.join
  List.zipWith (fun definition state => visit (selectedValue definition point) index state)
    definitions states

/-- One round of the loop over the buckets. -/
def visitBucket (definitions : List (MetricSeriesDefinition F))
    (records : List (Option (MinuteRecord F))) (minuteCount pointBudget : Nat)
    (states : List (SeriesState F)) (bucketIndex : Nat) : List (SeriesState F) :=
  let states := states.map fun state => { state with bucket := newBucketAccumulator }
  let states := (bucketMinutes minuteCount pointBudget bucketIndex).foldl
    (visitMinute definitions records) states
  if pointBudget < minuteCount then
    states.map fun state =>
      { state with candidates := addBucketCandidates state.candidates state.bucket }
  else states

def StatsAccumulator.stats (aggregate : StatsAccumulator F) : MetricSeriesStats F where
  current := aggregate.current
  average :=
    if aggregate.count = 0 then none
    else some (Number.div aggregate.sum (Number.ofNat aggregate.count))
  maximum := aggregate.maximum

/-- The timestamp of a minute, in milliseconds. -/
def timestamp (fromUnix : Int) (index : Nat) : Int := (fromUnix + index * 60) * 1000

/-- What becomes of a definition and its state after the loop. -/
def prepared (fromUnix : Int) (records : List (Option (MinuteRecord F)))
    (definition : MetricSeriesDefinition F) (state : SeriesState F) : PreparedMetricSeries F where
  toMetricSeriesDefinition := definition
  data := (state.candidates.sort (· ≤ ·)).map fun index =>
    (timestamp fromUnix index, selectedValue definition records[index]?.join)
  stats := state.aggregate.stats

def prepareChartSeries (history : HistoryResponse F) (definitions : List (MetricSeriesDefinition F))
    (width : JSNumber) : PreparedChartSeries F :=
  let pointBudget := chartPointBudget width
  match getAlignedHistoryIndex history with
  | none => { valid := false, minuteCount := 0, pointBudget, series := [] }
  | some aligned =>
    let minuteCount := aligned.minuteCount.toNat
    let states := definitions.map fun _ => SeriesState.new minuteCount pointBudget
    let states := (List.range (bucketCount minuteCount pointBudget)).foldl
      (visitBucket definitions aligned.records minuteCount pointBudget) states
    { valid := true, minuteCount, pointBudget
      series := List.zipWith (prepared aligned.fromUnix aligned.records) definitions states }

end Loop

/-! ## One series -/

section Series

variable [Number F]

/-- A round of the loop over the buckets for a series with the values `v`. -/
def scanBucket (v : Nat → Option F) (minuteCount pointBudget : Nat) (state : SeriesState F)
    (bucketIndex : Nat) : SeriesState F :=
  let state := { state with bucket := newBucketAccumulator }
  let state := (bucketMinutes minuteCount pointBudget bucketIndex).foldl
    (fun state index => visit (v index) index state) state
  if pointBudget < minuteCount then
    { state with candidates := addBucketCandidates state.candidates state.bucket }
  else state

/-- The loop over the buckets for a series with the values `v`. -/
def scan (v : Nat → Option F) (minuteCount pointBudget : Nat) : SeriesState F :=
  (List.range (bucketCount minuteCount pointBudget)).foldl (scanBucket v minuteCount pointBudget)
    (SeriesState.new minuteCount pointBudget)

variable {definitions : List (MetricSeriesDefinition F)}
  {records : List (Option (MinuteRecord F))} {minuteCount pointBudget : Nat}

/-- A list over the definitions, changed at each definition. -/
theorem zipWith_map_right_self {A B C : Type*} (f : A → B → C) (g : A → B) (l : List A) :
    List.zipWith f l (l.map g) = l.map fun a => f a (g a) := by
  rw [List.zipWith_map_right, List.zipWith_self]

/-- The loop over the minutes is one loop for each series. -/
theorem foldl_visitMinute (indices : List Nat) (states : MetricSeriesDefinition F → SeriesState F) :
    indices.foldl (visitMinute definitions records) (definitions.map states) =
      definitions.map fun definition => indices.foldl
        (fun state index => visit (selectedValue definition records[index]?.join) index state)
        (states definition) := by
  induction indices generalizing states with
  | nil => rfl
  | cons index indices ih =>
    rw [List.foldl_cons, visitMinute, zipWith_map_right_self, ih]
    rfl

theorem visitBucket_map (states : MetricSeriesDefinition F → SeriesState F) (bucketIndex : Nat) :
    visitBucket definitions records minuteCount pointBudget (definitions.map states) bucketIndex =
      definitions.map fun definition =>
        scanBucket (fun index => selectedValue definition records[index]?.join) minuteCount
          pointBudget (states definition) bucketIndex := by
  rw [visitBucket, List.map_map, foldl_visitMinute]
  unfold scanBucket
  split
  next => exact List.map_map
  next => rfl

/-- **The series do not touch one another.** -/
theorem foldl_visitBucket (buckets : List Nat) (states : MetricSeriesDefinition F → SeriesState F) :
    buckets.foldl (visitBucket definitions records minuteCount pointBudget)
        (definitions.map states) =
      definitions.map fun definition => buckets.foldl
        (scanBucket (fun index => selectedValue definition records[index]?.join) minuteCount
          pointBudget) (states definition) := by
  induction buckets generalizing states with
  | nil => rfl
  | cons bucketIndex buckets ih =>
    rw [List.foldl_cons, visitBucket_map, ih]
    rfl

theorem mem_bucketMinutes {bucketIndex index : Nat}
    (h : index ∈ bucketMinutes minuteCount pointBudget bucketIndex) : index < minuteCount := by
  rw [bucketMinutes, List.mem_range'_1] at h
  omega

/-- The loop looks at the minutes of the range only. -/
theorem scan_congr {v w : Nat → Option F} (h : ∀ index < minuteCount, v index = w index) :
    scan v minuteCount pointBudget = scan w minuteCount pointBudget := by
  refine List.foldl_ext _ _ _ fun state bucketIndex _ => ?_
  have hminutes : ∀ state : SeriesState F,
      (bucketMinutes minuteCount pointBudget bucketIndex).foldl
          (fun state index => visit (v index) index state) state =
        (bucketMinutes minuteCount pointBudget bucketIndex).foldl
          (fun state index => visit (w index) index state) state := fun state =>
    List.foldl_ext _ _ _ fun state index hindex => by rw [h index (mem_bucketMinutes hindex)]
  simp only [scanBucket, hminutes]

end Series

/-! ## The value at a minute -/

section Values

variable {history : HistoryResponse F} {fromUnix toUnix : Int}

/-- The number of minutes of a response. -/
def minuteCount (history : HistoryResponse F) : Nat := (aligned history).minuteCount.toNat

/-- The last record of a minute. -/
def recordAt (history : HistoryResponse F) (index : Nat) : Option (MinuteRecord F) :=
  lastOf MinuteRecord.minuteUnix (history.fromUnix.toInt + index * 60) history.points

/-- The full series: the value at a minute of the range. -/
def valueAt [Number F] (definition : MetricSeriesDefinition F) (history : HistoryResponse F)
    (index : Nat) : Option F :=
  selectedValue definition (recordAt history index)

theorem selectedValue_isFinite [Number F] {definition : MetricSeriesDefinition F}
    {point : Option (MinuteRecord F)} {x : F} (h : selectedValue definition point = some x) :
    Number.isFinite x = true := by
  unfold selectedValue at h
  split at h
  next => cases h
  next =>
    split at h
    next => cases h
    next => cases h
    next =>
      split at h
      next hfinite =>
        cases h
        exact hfinite
      next => cases h

/-- A point has the slot `i` of a valid range if it is of that minute. -/
theorem slot?_iff (hvalid : isValidHistoryRange fromUnix toUnix = true) {point : MinuteRecord F}
    {i : Nat} (hi : i < ((toUnix - fromUnix) / 60 + 1).toNat) :
    slot? fromUnix toUnix point = some i ↔ point.minuteUnix = fromUnix + i * 60 := by
  have hbounds := bounds_of_valid hvalid
  constructor
  · intro h
    have hkept := h
    unfold slot? at hkept
    split at hkept
    next => cases hkept
    next hnot =>
      simp only [Bool.or_eq_true, Bool.not_eq_true', decide_eq_true_iff, not_or,
        ne_eq, not_not, ← Int.dvd_iff_tmod_eq_zero] at hnot
      rw [slot?_eq_some hvalid (by omega) (by omega) (by omega)] at h
      omega
  · intro h
    rw [slot?_eq_some hvalid (by omega) (by omega) (by omega)]
    omega

/-- **A slot holds the last record of its minute.** -/
theorem foldl_place (hvalid : isValidHistoryRange fromUnix toUnix = true)
    (points : List (MinuteRecord F)) {i : Nat} (hi : i < ((toUnix - fromUnix) / 60 + 1).toNat) :
    (points.foldl (place fromUnix toUnix)
        (List.replicate ((toUnix - fromUnix) / 60 + 1).toNat none))[i]? =
      some (lastOf MinuteRecord.minuteUnix (fromUnix + i * 60) points) := by
  induction points using List.reverseRecOn with
  | nil =>
    rw [List.foldl_nil, List.getElem?_replicate, if_pos hi]
    rfl
  | append_singleton points point ih =>
    rw [List.foldl_append, List.foldl_cons, List.foldl_nil, lastOf_snoc]
    have hslot := @slot?_iff _ _ _ hvalid point _ hi
    split
    next hminute =>
      rw [place, hslot.mpr hminute]
      refine List.getElem?_set_self ?_
      rwa [length_foldl_place, List.length_replicate]
    next hminute =>
      rw [← ih, place]
      split
      next => rfl
      next j hj =>
        refine List.getElem?_set_ne ?_
        rintro rfl
        exact hminute (hslot.mp hj)

theorem aligned_records (hvalid : isValidHistoryRange history.fromUnix.toInt history.toUnix.toInt)
    {i : Nat} (hi : i < minuteCount history) :
    (aligned history).records[i]?.join = recordAt history i := by
  rw [aligned, foldl_place hvalid _ hi]
  rfl

theorem minuteCount_pos (hvalid : isValidHistoryRange history.fromUnix.toInt history.toUnix.toInt) :
    0 < minuteCount history := by
  have hbounds := bounds_of_valid hvalid
  simp only [minuteCount, aligned]
  omega

theorem prepareChartSeries_of_aligned [Number F] {index : AlignedHistoryIndex F}
    (hindex : getAlignedHistoryIndex history = some index)
    (definitions : List (MetricSeriesDefinition F)) (width : JSNumber) :
    prepareChartSeries history definitions width =
      { valid := true, minuteCount := index.minuteCount.toNat
        pointBudget := chartPointBudget width
        series := definitions.map fun definition =>
          prepared index.fromUnix index.records definition
            (scan (fun i => selectedValue definition index.records[i]?.join)
              index.minuteCount.toNat (chartPointBudget width)) } := by
  unfold prepareChartSeries
  rw [hindex]
  dsimp only
  rw [foldl_visitBucket, zipWith_map_right_self]
  rfl

/-- **What is prepared of a response**, series by series. -/
theorem prepareChartSeries_eq [Number F]
    (hvalid : isValidHistoryRange history.fromUnix.toInt history.toUnix.toInt)
    (definitions : List (MetricSeriesDefinition F)) (width : JSNumber) :
    prepareChartSeries history definitions width =
      { valid := true, minuteCount := minuteCount history, pointBudget := chartPointBudget width
        series := definitions.map fun definition =>
          prepared history.fromUnix.toInt (aligned history).records definition
            (scan (valueAt definition history) (minuteCount history) (chartPointBudget width)) } := by
  have hindex : getAlignedHistoryIndex history = some (aligned history) := by
    rw [getAlignedHistoryIndex, hvalid]
    rfl
  have hscan : ∀ definition : MetricSeriesDefinition F,
      scan (fun i => selectedValue definition (aligned history).records[i]?.join)
          (minuteCount history) (chartPointBudget width) =
        scan (valueAt definition history) (minuteCount history) (chartPointBudget width) :=
    fun definition => scan_congr fun i hi =>
      congrArg (selectedValue definition) (aligned_records hvalid hi)
  rw [prepareChartSeries_of_aligned hindex]
  simp only [← hscan]
  rfl

end Values

end TinyProbe.Web
