import TinyProbe.Lib.Map
import TinyProbe.Web.ChartBudget

/-!
# The plain series of a selector

`buildMinuteSeries` of `useHistory.ts` makes a series the plain way: a map from minutes to records,
one round for every minute of the range, no sampling. `prepareChartSeries` agrees with it
(`chart_agrees`): its data are a subsequence of the plain series, all of it within the budget, and its
statistics are those of the plain series whatever the width.
-/

namespace TinyProbe.Web

open History
open TinyProbe.Stream TinyProbe.Runs

variable {F : Type}

/-- `byMinute`. -/
def byMinute (points : List (MinuteRecord F)) (fromUnix toUnix : Int) : Map Int (MinuteRecord F) :=
  points.foldl (fun byMinute point =>
    if !isSafeInteger point.minuteUnix || decide (point.minuteUnix.tmod 60 ≠ 0) ||
        decide (point.minuteUnix < fromUnix) || decide (toUnix < point.minuteUnix) then byMinute
    else byMinute.insert point.minuteUnix point) ∅

/-- The values of `minute` in the second loop. -/
def minutesFrom (minute toUnix : Int) : List Int :=
  if minute ≤ toUnix then minute :: minutesFrom (minute + 60) toUnix else []
termination_by (toUnix + 60 - minute).toNat

/-- The value of a round of the second loop. -/
def minuteValue [Number F] (selector : MinuteRecord F → Except Unit (Option F))
    (point : Option (MinuteRecord F)) : Option F :=
  match point with
  | none => none
  | some point =>
    match selector point with
    | .error _ => none
    | .ok selected => selected.filter Number.isFinite

def buildMinuteSeries [Number F] (points : List (MinuteRecord F)) (fromUnix toUnix : Int)
    (selector : MinuteRecord F → Except Unit (Option F)) : List (Int × Option F) :=
  if !isValidHistoryRange fromUnix toUnix then []
  else
    (minutesFrom fromUnix toUnix).map fun minute =>
      (minute * 1000,
        minuteValue selector (AList.lookup minute (byMinute points fromUnix toUnix)))

/-! ## The two alignments -/

section Alignment

variable {fromUnix toUnix : Int}

/-- The map has the last record of a minute of the range. -/
theorem lookup_byMinute (hvalid : isValidHistoryRange fromUnix toUnix = true)
    (points : List (MinuteRecord F)) {minute : Int} (h60 : minute % 60 = 0)
    (hfrom : fromUnix ≤ minute) (hto : minute ≤ toUnix) :
    AList.lookup minute (byMinute points fromUnix toUnix) =
      lastOf MinuteRecord.minuteUnix minute points := by
  have hbounds := bounds_of_valid hvalid
  induction points using List.reverseRecOn with
  | nil => exact AList.lookup_empty minute
  | append_singleton points point ih =>
    rw [byMinute, List.foldl_append, List.foldl_cons, List.foldl_nil, ← byMinute, lastOf_snoc]
    split
    next hskipped =>
      have hne : point.minuteUnix ≠ minute := by
        rintro rfl
        simp only [Bool.or_eq_true, Bool.not_eq_true', decide_eq_true_iff, ne_eq,
          ← Int.dvd_iff_tmod_eq_zero, ← Bool.not_eq_true, isSafeInteger_iff] at hskipped
        omega
      rw [if_neg hne]
      exact ih
    next =>
      rw [Map.lookup_insert]
      by_cases heq : minute = point.minuteUnix
      · rw [if_pos heq, if_pos heq.symm]
      · rw [if_neg heq, if_neg fun h => heq h.symm]
        exact ih

/-- The second loop runs over the minutes of the range. -/
theorem minutesFrom_eq (minute : Int) (k : Nat) :
    minutesFrom minute (minute + k * 60) = (List.range (k + 1)).map fun i : Nat => minute + i * 60 := by
  induction k generalizing minute with
  | zero =>
    rw [minutesFrom, if_pos (by omega), minutesFrom, if_neg (by omega)]
    simp
  | succ k ih =>
    have hnext : minute + (k + 1 : Nat) * 60 = minute + 60 + k * 60 := by omega
    rw [minutesFrom, if_pos (by omega), hnext, ih, List.range_succ_eq_map (n := k + 1),
      List.map_cons, List.map_map]
    refine congrArg₂ List.cons (by omega) (List.map_congr_left fun i _ => ?_)
    simp only [Function.comp_apply, Nat.succ_eq_add_one, Nat.cast_add, Nat.cast_one]
    omega

end Alignment

section Series

variable [Number F] {history : HistoryResponse F}

theorem minuteValue_selector (definition : MetricSeriesDefinition F)
    (point : Option (MinuteRecord F)) :
    minuteValue definition.selector point = selectedValue definition point := by
  cases point with
  | none => rfl
  | some point =>
    simp only [minuteValue, selectedValue]
    cases definition.selector point with
    | error => rfl
    | ok selected =>
      cases selected with
      | none => rfl
      | some value => exact Option.filter_some

/-- **The plain series has the value of every minute.** -/
theorem buildMinuteSeries_eq (definition : MetricSeriesDefinition F)
    (hvalid : isValidHistoryRange history.fromUnix.toInt history.toUnix.toInt = true) :
    buildMinuteSeries history.points history.fromUnix.toInt history.toUnix.toInt
        definition.selector =
      (List.range (minuteCount history)).map
        (point (valueAt definition history) history.fromUnix.toInt) := by
  have hbounds := bounds_of_valid hvalid
  have hcount : minuteCount history =
      ((history.toUnix.toInt - history.fromUnix.toInt) / 60).toNat + 1 := by
    simp only [minuteCount, aligned]
    omega
  have hto : history.toUnix.toInt = history.fromUnix.toInt +
      (((history.toUnix.toInt - history.fromUnix.toInt) / 60).toNat : Nat) * 60 := by omega
  have hminutes := minutesFrom_eq history.fromUnix.toInt
    ((history.toUnix.toInt - history.fromUnix.toInt) / 60).toNat
  rw [← hto, ← hcount] at hminutes
  have hnot : ¬ (!isValidHistoryRange history.fromUnix.toInt history.toUnix.toInt) = true := by
    rw [hvalid]
    exact Bool.false_ne_true
  rw [buildMinuteSeries, if_neg hnot, hminutes, List.map_map]
  refine List.map_congr_left fun i hi => ?_
  have hlt := List.mem_range.mp hi
  rw [hcount] at hlt
  rw [Function.comp_apply, minuteValue_selector, lookup_byMinute hvalid _ (by omega) (by omega)
    (by omega)]
  rfl

/-! ## Statistics -/

/-- The statistics of a list of values. -/
structure StatsOf (values : List F) (stats : MetricSeriesStats F) : Prop where
  current : stats.current = values.getLast?
  average : stats.average =
    if values.isEmpty then none
    else some (Number.div (values.foldl Number.add (Number.ofNat 0)) (Number.ofNat values.length))
  maximum : match stats.maximum with
    | none => values = []
    | some maximum => maximum ∈ values ∧ ∀ x ∈ values, Number.lt maximum x = false

theorem accumulated_snoc (values : List F) (x : F) :
    accumulated (values ++ [x]) = (accumulated values).add x := List.foldl_concat _ _ _ _

theorem accumulated_sum (values : List F) :
    (accumulated values).sum = values.foldl Number.add (Number.ofNat 0) ∧
      (accumulated values).count = values.length ∧
      (accumulated values).current = values.getLast? := by
  induction values using List.reverseRecOn with
  | nil => exact ⟨rfl, rfl, rfl⟩
  | append_singleton values x ih =>
    rw [accumulated_snoc, List.foldl_append, List.length_append, List.getLast?_append]
    exact ⟨congrArg (Number.add · x) ih.1, congrArg (· + 1) ih.2.1, rfl⟩

theorem accumulated_maximum {values : List F}
    (hfinite : ∀ x ∈ values, Number.isFinite x = true) :
    match (accumulated values).maximum with
    | none => values = []
    | some maximum => maximum ∈ values ∧ ∀ x ∈ values, Number.lt maximum x = false := by
  induction values using List.reverseRecOn with
  | nil => rfl
  | append_singleton values x ih =>
    obtain ⟨hvalues, hx⟩ := List.forall_mem_append.mp hfinite
    have hxfinite := hx x List.mem_cons_self
    have hself : Number.lt x x = false := Number.lt_irrefl x
    have ih := ih hvalues
    rw [accumulated_snoc, StatsAccumulator.add]
    cases hmax : (accumulated values).maximum with
    | none =>
      rw [hmax] at ih
      subst ih
      exact ⟨List.mem_cons_self, fun y hy => by rwa [List.mem_singleton.mp hy]⟩
    | some maximum =>
      rw [hmax] at ih
      obtain ⟨hmem, hall⟩ := ih
      have hmaxfinite := hvalues maximum hmem
      rcases Number.max_cases maximum x hmaxfinite hxfinite with ⟨heq, hle⟩ | ⟨heq, hle⟩
      · dsimp only
        rw [heq]
        refine ⟨List.mem_append_left _ hmem, fun y hy => ?_⟩
        rcases List.mem_append.mp hy with hy | hy
        · exact hall y hy
        · rwa [List.mem_singleton.mp hy]
      · dsimp only
        rw [heq]
        refine ⟨List.mem_append_right _ List.mem_cons_self, fun y hy => ?_⟩
        rcases List.mem_append.mp hy with hy | hy
        · exact Number.not_lt_trans x maximum y hxfinite hmaxfinite (hvalues y hy) hle (hall y hy)
        · rwa [List.mem_singleton.mp hy]

/-- **What the loop sums up are the statistics of the values.** -/
theorem statsOf_accumulated {values : List F} (hfinite : ∀ x ∈ values, Number.isFinite x = true) :
    StatsOf values (accumulated values).stats := by
  obtain ⟨hsum, hcount, hcurrent⟩ := accumulated_sum values
  refine ⟨hcurrent, ?_, accumulated_maximum hfinite⟩
  rw [StatsAccumulator.stats, hsum, hcount]
  simp only [List.length_eq_zero_iff, List.isEmpty_iff]

/-! ## The two series -/

variable {v : Nat → Option F} {n P : Nat}

theorem listing_sublist (hn : 0 < n) (hv : ∀ i x, v i = some x → Number.isFinite x = true) :
    (listing v n P).Sublist (List.range n) := by
  have hsub : (listing v n P) ⊆ List.range n := fun i hi =>
    List.mem_range.mpr ((listing_keepsRuns hn hv).bound i hi)
  have hnodup : (listing v n P).Nodup := Finset.sort_nodup _ _
  exact List.sublist_of_subperm_of_sortedLE (List.subperm_of_subset hnodup hsub)
    (Finset.sortedLT_sort _).sortedLE (List.sortedLT_range n).sortedLE

/-- The statistics of a series are those of all its minutes. -/
theorem scan_aggregate (hn : 0 < n) (hv : ∀ i x, v i = some x → Number.isFinite x = true) (P : Nat) :
    (scan v n P).aggregate = accumulated ((List.range n).filterMap v) := by
  obtain ⟨extra, h⟩ := rounds_scan (P := P) hn hv
  have haggregate := h.scanned.aggregate
  rwa [progress_last] at haggregate

/-- **The fast chart path agrees with the plain series builder.** The line is a subsequence of the
plain series, and all of it when that is within the budget; its statistics are those of the values
of the plain series: the last one, their sum by their number, and a largest one. -/
theorem chart_agrees (history : HistoryResponse F)
    (hvalid : isValidHistoryRange history.fromUnix.toInt history.toUnix.toInt = true)
    (definitions : List (MetricSeriesDefinition F)) (width : JSNumber) :
    List.Forall₂ (fun definition series =>
        let full := buildMinuteSeries history.points history.fromUnix.toInt history.toUnix.toInt
          definition.selector
        series.toMetricSeriesDefinition = definition ∧ series.data.Sublist full ∧
          (full.length ≤ chartPointBudget width → series.data = full) ∧
          StatsOf (full.filterMap Prod.snd) series.stats)
      definitions (prepareChartSeries history definitions width).series := by
  rw [prepareChartSeries_eq hvalid]
  refine List.forall₂_map_right_iff.mpr (List.forall₂_same.mpr fun definition _ => ?_)
  have hn := minuteCount_pos hvalid
  have hv : ∀ i x, valueAt definition history i = some x → Number.isFinite x = true :=
    valueAt_isFinite
  have hvalues : ((List.range (minuteCount history)).map
      (point (valueAt definition history) history.fromUnix.toInt)).filterMap Prod.snd =
        (List.range (minuteCount history)).filterMap (valueAt definition history) := by
    rw [List.filterMap_map]
    rfl
  refine ⟨rfl, ?_⟩
  rw [prepared_data hvalid, buildMinuteSeries_eq definition hvalid, lineOf, line, hvalues,
    List.length_map, List.length_range]
  refine ⟨(listing_sublist hn hv).map _, fun hle => ?_, ?_⟩
  · rw [listing_eq_range hn hv hle]
  · rw [prepared, scan_aggregate hn hv]
    refine statsOf_accumulated fun x hx => ?_
    obtain ⟨i, _, hi⟩ := List.mem_filterMap.mp hx
    exact hv i x hi

end Series

theorem chart_agrees_cpu :
    isValidHistoryRange cpuHistory.fromUnix.toInt cpuHistory.toUnix.toInt = true ∧
      chartPointBudget .nan < minuteCount cpuHistory ∧
      List.Forall₂ (fun definition series =>
          let full := buildMinuteSeries cpuHistory.points cpuHistory.fromUnix.toInt
            cpuHistory.toUnix.toInt definition.selector
          series.toMetricSeriesDefinition = definition ∧ series.data.Sublist full ∧
            (full.length ≤ chartPointBudget .nan → series.data = full) ∧
            StatsOf (full.filterMap Prod.snd) series.stats)
        [cpuAverage] (prepareChartSeries cpuHistory [cpuAverage] .nan).series :=
  ⟨by decide, cpuHistory_long, chart_agrees cpuHistory (by decide) [cpuAverage] .nan⟩

end TinyProbe.Web
