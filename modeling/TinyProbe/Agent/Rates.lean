import TinyProbe.Agent.Source

/-!
# The rates of the network

A rate times the time between its two samples is no more than what the counter has grown
(`bytesPerSecond_le`). The sampler starts anew when the interface changes and is kept when a call
fails, so a call has a rate only if the call that succeeded before it was on the same interface
and earlier (`network_rates`), and over any calls in succession the rates times the times between
them are no more than what the counters have grown.

The time between two samples is what `Time.Sub` makes of it, which is exact up to 292 years.
-/

namespace TinyProbe.Agent

open Protocol

/-! ## A rate -/

section Rate

variable {c : Conversion}

theorem sub_pos_iff {t u : Time} : 0 < t.sub u ↔ u.ns < t.ns := by
  rw [Int64.lt_iff_toInt_lt, Int64.toInt_zero]
  unfold Time.sub
  split
  next => rw [Int64.toInt_minValue]; omega
  next =>
    split
    next => rw [Int64.toInt_maxValue]; omega
    next => rw [Int64.toInt_ofInt_of_le (by omega) (by omega)]; omega

/-- A quotient is never converted to a larger number. -/
theorem convert_le (c : Conversion) (q : Nat) : (c.convert q).toNat ≤ q := by
  by_cases hq : q < 2 ^ 64
  · exact Nat.le_of_eq (c.convert_toNat q hq)
  · exact Nat.le_trans (Nat.le_of_lt (c.convert q).toNat_lt) (Nat.le_of_not_lt hq)

/-- **A rate times the time is no more than the growth.** -/
theorem bytesPerSecond_le (c : Conversion) (previous current : UInt64) (elapsed : Duration) :
    (bytesPerSecond c previous current elapsed).toNat * nanoseconds elapsed ≤
      (current.toNat - previous.toNat) * 1000000000 := by
  unfold bytesPerSecond
  split
  next =>
    rw [UInt64.toNat_zero, Nat.zero_mul]
    exact Nat.zero_le _
  next h =>
    have hle : previous ≤ current := UInt64.not_lt.mp (not_or.mp h).1
    rw [← UInt64.toNat_sub_of_le _ _ hle]
    calc _ ≤ (current - previous).toNat * 1000000000 / nanoseconds elapsed * nanoseconds elapsed :=
          Nat.mul_le_mul_right _ (convert_le c _)
      _ ≤ _ := Nat.div_mul_le_self _ _

end Rate

/-! ## Samples in succession -/

/-- A sample that was returned. -/
structure Observed where
  interface : List Char
  at_ : Time
  stats : NetworkStats

/-- The samples that calls of `DefaultRouteNetwork` return. -/
def observe (c : Conversion) : GopsutilSource → List NetworkReading → List Observed
  | _, [] => []
  | s, r :: rs =>
    match s.defaultRouteNetwork c r with
    | (.error _, s) => observe c s rs
    | (.ok (interface, stats), s) => { interface, at_ := r.now, stats } :: observe c s rs

/-- The rates of a sample are those since the sample before it. -/
structure Since (c : Conversion) (p o : Observed) : Prop where
  interface : p.interface = o.interface
  later : p.at_.ns < o.at_.ns
  upload : o.stats.uploadBytesPerSecond =
    bytesPerSecond c p.stats.totalUploadBytes o.stats.totalUploadBytes (o.at_.sub p.at_)
  download : o.stats.downloadBytesPerSecond =
    bytesPerSecond c p.stats.totalDownloadBytes o.stats.totalDownloadBytes (o.at_.sub p.at_)

/-- The sample has no rates. -/
structure Still (o : Observed) : Prop where
  upload : o.stats.uploadBytesPerSecond = 0
  download : o.stats.downloadBytesPerSecond = 0

/-- The state of the sampler is that of the last sample. -/
def Follows (s : GopsutilSource) : Option Observed → Prop
  | none => s.networkRate = .zero
  | some o => s.networkInterface = o.interface ∧ s.networkRate =
      { initialized := true, at_ := o.at_, first := o.stats.totalUploadBytes
        second := o.stats.totalDownloadBytes }

/-- What a sample is, after the last one. -/
def After (c : Conversion) (last : Option Observed) (o : Observed) : Prop :=
  Still o ∨ ∃ p, last = some p ∧ Since c p o

section Sampling

variable {c : Conversion} {s : GopsutilSource} {last : Option Observed}

theorem sample_zero (now : Time) (first second : UInt64) :
    RateState.zero.sample c now first second =
      ((0, 0), { initialized := true, at_ := now, first, second }) := rfl

/-- A sample after another. -/
theorem sample_after (at_ now : Time) (first second first' second' : UInt64) :
    RateState.sample c { initialized := true, at_, first, second } now first' second' =
      (if at_.ns < now.ns then
        (bytesPerSecond c first first' (now.sub at_), bytesPerSecond c second second' (now.sub at_))
        else (0, 0), { initialized := true, at_ := now, first := first', second := second' }) := by
  unfold RateState.sample
  dsimp only
  rw [if_neg (by decide)]
  by_cases hlt : at_.ns < now.ns
  · rw [if_neg (Int64.not_le.mpr (sub_pos_iff.mpr hlt)), if_pos hlt]
  · rw [if_pos (Int64.not_lt.mp fun h => hlt (sub_pos_iff.mp h)), if_neg hlt]

/-- **A sample** has the rates since the last one, or none. -/
theorem sampleNetwork_spec (h : Follows s last) (now : Time) (counter : NetworkCounters) :
    Follows (s.sampleNetwork c now counter).2
        (some ⟨counter.name, now, (s.sampleNetwork c now counter).1⟩) ∧
      After c last ⟨counter.name, now, (s.sampleNetwork c now counter).1⟩ := by
  unfold GopsutilSource.sampleNetwork
  by_cases hname : s.networkInterface ≠ counter.name
  · rw [if_pos hname]
    dsimp only
    rw [sample_zero]
    exact ⟨⟨rfl, rfl⟩, Or.inl ⟨rfl, rfl⟩⟩
  · rw [if_neg hname]
    dsimp only
    have hname := not_not.mp hname
    cases last with
    | none =>
      have hrate : s.networkRate = .zero := h
      rw [hrate, sample_zero]
      exact ⟨⟨hname, rfl⟩, Or.inl ⟨rfl, rfl⟩⟩
    | some p =>
      obtain ⟨hinterface, hrate⟩ := h
      rw [hrate, sample_after]
      refine ⟨⟨hname, rfl⟩, ?_⟩
      by_cases hlt : p.at_.ns < now.ns
      · rw [if_pos hlt]
        exact Or.inr ⟨p, rfl, hinterface.symm.trans hname, hlt, rfl, rfl⟩
      · rw [if_neg hlt]
        exact Or.inl ⟨rfl, rfl⟩

/-- **A call** fails and changes nothing, or returns a sample. -/
theorem defaultRouteNetwork_cases (h : Follows s last) (r : NetworkReading) :
    (∃ err, s.defaultRouteNetwork c r = (.error err, s)) ∨
      ∃ interface stats s', s.defaultRouteNetwork c r = (.ok (interface, stats), s') ∧
        Follows s' (some ⟨interface, r.now, stats⟩) ∧ After c last ⟨interface, r.now, stats⟩ := by
  unfold GopsutilSource.defaultRouteNetwork
  split
  next => exact Or.inl ⟨_, rfl⟩
  next interfaceName _ =>
    split
    next => exact Or.inl ⟨_, rfl⟩
    next counters _ =>
      split
      next => exact Or.inl ⟨_, rfl⟩
      next counter hfind =>
        have hname : counter.name = interfaceName := by
          simpa only [beq_iff_eq] using List.find?_some hfind
        obtain ⟨hfollows, hafter⟩ := sampleNetwork_spec h r.now counter
        rw [hname] at hfollows hafter
        exact Or.inr ⟨_, _, _, rfl, hfollows, hafter⟩

/-- Each sample is what it is after the one before it. -/
inductive Chain (c : Conversion) : Option Observed → List Observed → Prop where
  | nil (last : Option Observed) : Chain c last []
  | cons {last : Option Observed} {o : Observed} {os : List Observed} (head : After c last o)
      (tail : Chain c (some o) os) : Chain c last (o :: os)

/-- **Every run of calls**, by induction on the calls; one that fails is as if it was not made. -/
theorem chain_observe (h : Follows s last) (rs : List NetworkReading) :
    Chain c last (observe c s rs) := by
  induction rs generalizing s last with
  | nil => exact .nil last
  | cons r rs ih =>
    rw [observe]
    obtain ⟨err, heq⟩ | ⟨interface, stats, s', heq, hfollows, hafter⟩ :=
      defaultRouteNetwork_cases (c := c) h r
    · rw [heq]
      exact ih h
    · rw [heq]
      exact .cons hafter (ih hfollows)

theorem Chain.left {xs ys : List Observed} (h : Chain c last (xs ++ ys)) : Chain c last xs := by
  induction xs generalizing last with
  | nil => exact .nil last
  | cons x xs ih =>
    cases h with
    | cons head tail => exact .cons head (ih tail)

theorem Chain.right {xs ys : List Observed} (h : Chain c last (xs ++ ys)) :
    Chain c (xs.getLast?.or last) ys := by
  induction xs generalizing last with
  | nil => exact h
  | cons x xs ih =>
    cases h with
    | cons head tail =>
      have hrest := ih tail
      rw [List.getLast?_cons]
      cases hlast : xs.getLast? with
      | none =>
        rw [hlast] at hrest
        exact hrest
      | some z =>
        rw [hlast] at hrest
        exact hrest

end Sampling

/-! ## The two directions -/

inductive Flow where
  | upload
  | download
deriving DecidableEq

def Flow.rate : Flow → NetworkStats → UInt64
  | .upload, stats => stats.uploadBytesPerSecond
  | .download, stats => stats.downloadBytesPerSecond

/-- The counter. -/
def Flow.bytes : Flow → NetworkStats → UInt64
  | .upload, stats => stats.totalUploadBytes
  | .download, stats => stats.totalDownloadBytes

/-- The rates of samples in succession times the nanoseconds between them. -/
def carried (flow : Flow) : List Observed → Nat
  | p :: o :: os =>
    (flow.rate o.stats).toNat * nanoseconds (o.at_.sub p.at_) + carried flow (o :: os)
  | _ => 0

/-- The growth of the counter between samples in succession; a counter that falls does not grow. -/
def grown (flow : Flow) : List Observed → Nat
  | p :: o :: os => ((flow.bytes o.stats).toNat - (flow.bytes p.stats).toNat) + grown flow (o :: os)
  | _ => 0

section Flows

variable {c : Conversion} {p o : Observed} {last : Option Observed}

theorem Since.rate (h : Since c p o) (flow : Flow) : flow.rate o.stats =
    bytesPerSecond c (flow.bytes p.stats) (flow.bytes o.stats) (o.at_.sub p.at_) := by
  cases flow with
  | upload => exact h.upload
  | download => exact h.download

theorem Still.rate (h : Still o) (flow : Flow) : flow.rate o.stats = 0 := by
  cases flow with
  | upload => exact h.upload
  | download => exact h.download

theorem After.rate_le (h : After c (some p) o) (flow : Flow) :
    (flow.rate o.stats).toNat * nanoseconds (o.at_.sub p.at_) ≤
      ((flow.bytes o.stats).toNat - (flow.bytes p.stats).toNat) * 1000000000 := by
  rcases h with hstill | ⟨_, heq, hsince⟩
  · rw [hstill.rate flow, UInt64.toNat_zero, Nat.zero_mul]
    exact Nat.zero_le _
  · cases heq
    rw [hsince.rate flow]
    exact bytesPerSecond_le c _ _ _

/-- **The rates telescope**, by induction on the samples. -/
theorem Chain.carried_le {os : List Observed} (h : Chain c last os) (flow : Flow) :
    carried flow os ≤ grown flow os * 1000000000 := by
  induction os generalizing last with
  | nil => exact Nat.zero_le _
  | cons p os ih =>
    cases h with
    | cons _ tail =>
      cases os with
      | nil => exact Nat.zero_le _
      | cons o os =>
        have hrest := ih tail
        cases tail with
        | cons head _ =>
          rw [carried, grown, Nat.add_mul]
          exact Nat.add_le_add (head.rate_le flow) hrest

end Flows

/-- **Rates come from one interface, and telescope.** Over every sequence of calls, a sample with
a rate has the sample before it on its interface and earlier, and the rate is that between the
two; and over any samples in succession the rates times the times are no more than the growth of
the counter. -/
theorem network_rates (c : Conversion) (rs : List NetworkReading) (flow : Flow) :
    (∀ before o after, observe c .new rs = before ++ o :: after → flow.rate o.stats ≠ 0 →
      ∃ before' p, before = before' ++ [p] ∧ p.interface = o.interface ∧ p.at_.ns < o.at_.ns ∧
        flow.rate o.stats =
          bytesPerSecond c (flow.bytes p.stats) (flow.bytes o.stats) (o.at_.sub p.at_)) ∧
      ∀ before stretch after, observe c .new rs = before ++ stretch ++ after →
        carried flow stretch ≤ grown flow stretch * 1000000000 := by
  have hnew : Follows .new none := rfl
  have hchain : Chain c none (observe c .new rs) := chain_observe hnew rs
  constructor
  · intro before o after hos hrate
    rw [hos] at hchain
    cases hchain.right with
    | cons head _ =>
      rcases head with hstill | ⟨p, hp, hsince⟩
      · exact absurd (hstill.rate flow) hrate
      · rw [Option.or_none] at hp
        obtain ⟨before', hbefore⟩ := List.getLast?_eq_some_iff.mp hp
        exact ⟨before', p, hbefore, hsince.interface, hsince.later, hsince.rate flow⟩
  · intro before stretch after hos
    rw [hos] at hchain
    exact hchain.left.right.carried_le flow

end TinyProbe.Agent
