import Mathlib.Algebra.BigOperators.Group.Finset.Piecewise
import TinyProbe.Lib.Run
import TinyProbe.Agent.Rates

/-!
# The rates of the disks

A rate is computed from the difference of two sums, each over the devices in view at its sample.
So the lifetime total of a device that comes into view counts as transfer, less those of the
devices that go out of view. What was really transferred bounds the rate exactly if what stood on
the counters of the devices that have come into view, at the sample before, is no more than what
stands on those that have gone and what was transferred out of view (`diskRate_le_iff`).
-/

namespace TinyProbe.Agent

open Protocol TinyProbe.Run

/-- A sample: the counters of all devices at an instant, and which of them are in view. -/
structure DiskSample where
  now : Time
  totals : String → DiskCounters
  /-- The names the library lists. -/
  listed : List String
  physical : String → Bool
  unique : listed.Nodup

namespace DiskSample

/-- What `DiskIO` reads at the sample. -/
def reading (x : DiskSample) : DiskReading :=
  { counters := .ok (x.listed.map fun name => (name, x.totals name))
    physical := x.physical, now := x.now }

/-- The devices in view: listed, and classified as physical. -/
def visible (x : DiskSample) : Finset String := (x.listed.filter x.physical).toFinset

/-- The nanoseconds between two samples. -/
def elapsed (x y : DiskSample) : Nat := nanoseconds (y.now.sub x.now)

/-- The two sums. -/
def sums (x : DiskSample) : UInt64 × UInt64 :=
  aggregatePhysicalDiskIO (x.listed.map fun name => (name, x.totals name)) x.physical

/-- The state of the sampler after the sample. -/
def state (x : DiskSample) : RateState :=
  { initialized := true, at_ := x.now, first := x.sums.1, second := x.sums.2 }

end DiskSample

inductive Direction where
  | read
  | write
deriving DecidableEq

namespace Direction

def bytes : Direction → DiskCounters → UInt64
  | .read, counters => counters.readBytes
  | .write, counters => counters.writeBytes

def rate : Direction → DiskIOStats → UInt64
  | .read, stats => stats.readBytesPerSecond
  | .write, stats => stats.writeBytesPerSecond

/-- The part of a pair of sums. -/
def part : Direction → UInt64 × UInt64 → UInt64
  | .read, sums => sums.1
  | .write, sums => sums.2

/-- The counter of a device. -/
def counter (d : Direction) (x : DiskSample) (name : String) : Nat := (d.bytes (x.totals name)).toNat

/-- What the counters of the devices in view add up to. -/
def sum (d : Direction) (x : DiskSample) : Nat := ∑ name ∈ x.visible, d.counter x name

/-- What was transferred between two samples. -/
def growth (d : Direction) (devices : Finset String) (x y : DiskSample) : Nat :=
  ∑ name ∈ devices, (d.counter y name - d.counter x name)

/-- What stood on the devices that have come into view. -/
def came (d : Direction) (x y : DiskSample) : Nat :=
  ∑ name ∈ y.visible \ x.visible, d.counter x name

/-- What stands on the devices that have gone out of view. -/
def went (d : Direction) (x y : DiskSample) : Nat :=
  ∑ name ∈ x.visible \ y.visible, d.counter y name

/-- What was transferred by the devices in view at neither sample. -/
def unseen (d : Direction) (devices : Finset String) (x y : DiskSample) : Nat :=
  ∑ name ∈ devices \ (x.visible ∪ y.visible), (d.counter y name - d.counter x name)

end Direction

/-- Two samples of some devices: the counters never decrease, and the sums do not wrap. -/
structure Watched (devices : Finset String) (x y : DiskSample) : Prop where
  later : x.now.ns < y.now.ns
  grows : ∀ d : Direction, ∀ name ∈ devices, d.counter x name ≤ d.counter y name
  before : x.visible ⊆ devices
  after : y.visible ⊆ devices
  sumBefore : ∀ d : Direction, d.sum x < 2 ^ 64
  sumAfter : ∀ d : Direction, d.sum y < 2 ^ 64

/-! ## The sums -/

section Sums

variable {devices : Finset String} {x y : DiskSample} (d : Direction)

theorem part_addDevice (physical : String → Bool) (sums : UInt64 × UInt64)
    (entry : String × DiskCounters) : d.part (addDevice physical sums entry) =
      if physical entry.1 then d.part sums + d.bytes entry.2 else d.part sums := by
  unfold addDevice
  cases d with
  | read => split <;> rfl
  | write => split <;> rfl

/-- The loop adds the counters of the devices in view, modulo 2^64, by induction on the names. -/
theorem addDevice_foldl (totals : String → DiskCounters) (physical : String → Bool)
    (names : List String) (sums : UInt64 × UInt64) (hunique : names.Nodup) :
    (d.part ((names.map fun name => (name, totals name)).foldl (addDevice physical) sums)).toNat =
      ((d.part sums).toNat +
        ∑ name ∈ (names.filter physical).toFinset, (d.bytes (totals name)).toNat) % 2 ^ 64 := by
  induction names generalizing sums with
  | nil =>
    rw [List.map_nil, List.foldl_nil, List.filter_nil, List.toFinset_nil, Finset.sum_empty,
      Nat.add_zero, Nat.mod_eq_of_lt (d.part sums).toNat_lt]
  | cons name names ih =>
    obtain ⟨hname, hunique⟩ := List.nodup_cons.mp hunique
    rw [List.map_cons, List.foldl_cons, ih _ hunique, part_addDevice]
    by_cases hphysical : physical name = true
    · have hnew : name ∉ (names.filter physical).toFinset := fun h =>
        hname (List.mem_of_mem_filter (List.mem_toFinset.mp h))
      rw [if_pos hphysical, List.filter_cons_of_pos hphysical, List.toFinset_cons,
        Finset.sum_insert hnew, UInt64.toNat_add, Nat.mod_add_mod, Nat.add_assoc]
    · rw [if_neg hphysical, List.filter_cons_of_neg hphysical]

theorem part_sums (hsum : d.sum x < 2 ^ 64) : (d.part x.sums).toNat = d.sum x := by
  have hzero : (d.part (0, 0)).toNat = 0 := by cases d <;> rfl
  unfold DiskSample.sums aggregatePhysicalDiskIO
  rw [addDevice_foldl d _ _ _ _ x.unique, hzero, Nat.zero_add]
  exact Nat.mod_eq_of_lt hsum

/-- A sum over some of the devices, as one over all of them. -/
theorem sum_devices {some devices : Finset String} (hsome : some ⊆ devices) (f : String → Nat) :
    ∑ name ∈ some, f name = ∑ name ∈ devices, if name ∈ some then f name else 0 := by
  rw [Finset.sum_ite_mem, Finset.inter_eq_right.mpr hsome]

/-- **The sums and the transfer**, device by device. -/
theorem Watched.sum_add (h : Watched devices x y) :
    d.sum y + (d.went x y + d.unseen devices x y) =
      d.sum x + (d.came x y + d.growth devices x y) := by
  have hwent : x.visible \ y.visible ⊆ devices := Finset.sdiff_subset.trans h.before
  have hcame : y.visible \ x.visible ⊆ devices := Finset.sdiff_subset.trans h.after
  have hunseen : devices \ (x.visible ∪ y.visible) ⊆ devices := Finset.sdiff_subset
  unfold Direction.sum Direction.went Direction.unseen Direction.came Direction.growth
  rw [sum_devices h.after, sum_devices hwent, sum_devices h.before, sum_devices hcame,
    sum_devices hunseen]
  simp only [← Finset.sum_add_distrib]
  refine Finset.sum_congr rfl fun name hname => ?_
  have hgrows := h.grows d name hname
  by_cases hx : name ∈ x.visible <;> by_cases hy : name ∈ y.visible <;>
    simp only [Finset.mem_sdiff, Finset.mem_union, hx, hy, hname, if_true, if_false, not_true,
      not_false_eq_true, and_true, and_false, or_true, or_false] <;> omega

end Sums

/-! ## The rates -/

section Runs

variable {c : Conversion}

/-- The state after a number of calls. -/
def after (c : Conversion) (rs : List DiskReading) : GopsutilSource :=
  run (fun s r => (s.diskIo c r).2) .new rs

theorem sample_state (s : RateState) (now : Time) (first second : UInt64) :
    (s.sample c now first second).2 = { initialized := true, at_ := now, first, second } := by
  unfold RateState.sample
  split
  next => rfl
  next =>
    dsimp only
    split <;> rfl

theorem diskIo_state (s : GopsutilSource) (x : DiskSample) :
    (s.diskIo c x.reading).2.diskRate = x.state := sample_state s.diskRate x.now _ _

/-- A call that fails changes nothing. -/
theorem diskIo_failed (s : GopsutilSource) {r : DiskReading}
    (hr : ∃ err, r.counters = .error err) : (s.diskIo c r).2 = s := by
  obtain ⟨err, hr⟩ := hr
  unfold GopsutilSource.diskIo
  rw [hr]

/-- The state is that of the last sample, by induction on the calls since. -/
theorem after_diskRate (earlier : List DiskReading) (x : DiskSample) (failed : List DiskReading)
    (hfailed : ∀ r ∈ failed, ∃ err, r.counters = .error err) :
    (after c (earlier ++ x.reading :: failed)).diskRate = x.state := by
  have hkeep : ∀ s : GopsutilSource, run (fun s r => (s.diskIo c r).2) s failed = s := by
    induction failed with
    | nil => exact fun _ => rfl
    | cons r rs ih =>
      intro s
      rw [run_cons, diskIo_failed s (hfailed r List.mem_cons_self)]
      exact ih (fun r' hr' => hfailed r' (List.mem_cons_of_mem r hr')) s
  unfold after
  rw [run_append, run_cons, hkeep]
  exact diskIo_state _ x

/-- **The rates of a sample** are those of its sums. -/
theorem diskIo_rate {s : GopsutilSource} {x y : DiskSample} (hs : s.diskRate = x.state)
    (hlater : x.now.ns < y.now.ns) (d : Direction) :
    ∃ stats s', s.diskIo c y.reading = (.ok stats, s') ∧
      d.rate stats = bytesPerSecond c (d.part x.sums) (d.part y.sums) (y.now.sub x.now) := by
  unfold GopsutilSource.diskIo DiskSample.reading
  dsimp only
  rw [hs, DiskSample.state, sample_after, if_pos hlater]
  refine ⟨_, _, rfl, ?_⟩
  cases d with
  | read => rfl
  | write => rfl

/-- A rate times the time is the growth if the division is exact. -/
theorem bytesPerSecond_exact {previous current : UInt64} {elapsed : Duration} {q : Nat}
    (hq : q < 2 ^ 64) (hpos : 0 < elapsed)
    (hexact : (current.toNat - previous.toNat) * 1000000000 = q * nanoseconds elapsed) :
    (bytesPerSecond c previous current elapsed).toNat * nanoseconds elapsed =
      (current.toNat - previous.toNat) * 1000000000 := by
  have hpos' : 0 < nanoseconds elapsed := by
    rw [Int64.lt_iff_toInt_lt, Int64.toInt_zero] at hpos
    unfold nanoseconds
    omega
  unfold bytesPerSecond
  by_cases hlt : current < previous
  · rw [if_pos (Or.inl hlt), UInt64.toNat_zero, Nat.zero_mul,
      Nat.sub_eq_zero_of_le (Nat.le_of_lt (UInt64.lt_iff_toNat_lt.mp hlt)), Nat.zero_mul]
  · rw [if_neg (not_or.mpr ⟨hlt, Int64.not_le.mpr hpos⟩),
      UInt64.toNat_sub_of_le _ _ (UInt64.not_lt.mp hlt), hexact, Nat.mul_div_cancel _ hpos',
      c.convert_toNat q hq]

end Runs

/-- **A rate is real transfer** between a sample and the one before it if what stood on the
devices that have come into view is no more than what stands on those that have gone and what was
transferred out of view, whatever was sampled before and however many calls failed in between; and
only if, where the division is exact. -/
theorem diskRate_le_iff (c : Conversion) {devices : Finset String} (earlier : List DiskReading)
    {x y : DiskSample} (failed : List DiskReading)
    (hfailed : ∀ r ∈ failed, ∃ err, r.counters = .error err) (h : Watched devices x y)
    (d : Direction) :
    ∃ stats s', (after c (earlier ++ x.reading :: failed)).diskIo c y.reading = (.ok stats, s') ∧
      (d.came x y ≤ d.went x y + d.unseen devices x y →
        (d.rate stats).toNat * x.elapsed y ≤ d.growth devices x y * 1000000000) ∧
      ∀ q < 2 ^ 64, (d.sum y - d.sum x) * 1000000000 = q * x.elapsed y →
        ((d.rate stats).toNat * x.elapsed y ≤ d.growth devices x y * 1000000000 ↔
          d.came x y ≤ d.went x y + d.unseen devices x y) := by
  obtain ⟨stats, s', hcall, hrate⟩ :=
    diskIo_rate (c := c) (after_diskRate earlier x failed hfailed) h.later d
  have hadd := h.sum_add d
  have hx := part_sums d (h.sumBefore d)
  have hy := part_sums d (h.sumAfter d)
  have henough : d.came x y ≤ d.went x y + d.unseen devices x y →
      (d.rate stats).toNat * x.elapsed y ≤ d.growth devices x y * 1000000000 := by
    intro hcame
    have hle := bytesPerSecond_le c (d.part x.sums) (d.part y.sums) (y.now.sub x.now)
    rw [← hrate, hx, hy] at hle
    exact Nat.le_trans hle (Nat.mul_le_mul_right _ (by omega))
  refine ⟨stats, s', hcall, henough, fun q hq hexact => ⟨fun hbound => ?_, henough⟩⟩
  rw [← hx, ← hy] at hexact
  have heq := bytesPerSecond_exact (c := c) hq (sub_pos_iff.mpr h.later) hexact
  rw [← hrate, hx, hy] at heq
  have hgrown : (d.sum y - d.sum x) * 1000000000 ≤ d.growth devices x y * 1000000000 :=
    Nat.le_trans (Nat.le_of_eq heq.symm) hbound
  have hle := Nat.le_of_mul_le_mul_right hgrown (by decide)
  omega

/-- Two disks, with what has been read from each, and which of them are classified as physical. -/
def twoDisks (seconds : Int) (readBytes : UInt64) (physical : String → Bool) : DiskSample where
  now := ⟨seconds * 1000000000⟩
  totals _ := { readBytes, writeBytes := 0 }
  listed := ["sda", "sdb"]
  physical := physical
  unique := by decide

theorem twoDisks_watched {readBytes readBytes' : UInt64} {before after : String → Bool}
    (hle : readBytes.toNat ≤ readBytes'.toNat)
    (hbefore : (twoDisks 1 readBytes before).visible ⊆ {"sda", "sdb"})
    (hafter : (twoDisks 2 readBytes' after).visible ⊆ {"sda", "sdb"})
    (hsum : ∀ d : Direction,
      d.sum (twoDisks 1 readBytes before) < 2 ^ 64 ∧ d.sum (twoDisks 2 readBytes' after) < 2 ^ 64) :
    Watched {"sda", "sdb"} (twoDisks 1 readBytes before) (twoDisks 2 readBytes' after) where
  later := Int.lt_of_sub_pos (by decide : (0 : Int) < 2 * 1000000000 - 1 * 1000000000)
  grows d _ _ := by
    cases d with
    | read => exact hle
    | write => exact Nat.le_refl _
  before := hbefore
  after := hafter
  sumBefore d := (hsum d).1
  sumAfter d := (hsum d).2

/-- Both are in view, and a call fails between the samples. -/
theorem twoDisks_rate :
    ∃ stats s', (after lowBits [(twoDisks 1 10000000000 fun _ => true).reading,
        { counters := .error (.text "no counters"), physical := fun _ => true, now := .zero }]).diskIo
        lowBits (twoDisks 2 15000000000 fun _ => true).reading = (.ok stats, s') ∧
      stats.readBytesPerSecond.toNat * 1000000000 ≤ 10000000000 * 1000000000 := by
  have hwatched : Watched {"sda", "sdb"} (twoDisks 1 10000000000 fun _ => true)
      (twoDisks 2 15000000000 fun _ => true) :=
    twoDisks_watched (by decide) (by decide) (by decide) fun d => by cases d <;> decide
  obtain ⟨stats, s', hcall, -, hiff⟩ := diskRate_le_iff lowBits []
    [{ counters := .error (.text "no counters"), physical := fun _ => true, now := .zero }]
    (fun r hr => ⟨.text "no counters", by rw [List.mem_singleton.mp hr]⟩) hwatched .read
  exact ⟨stats, s', hcall, (hiff 10000000000 (by decide) (by decide)).mpr (by decide)⟩

/-- `sdb` is not in view at one sample, and is again at the next: its lifetime total is a rate. -/
theorem returning_disk_rate :
    Watched {"sda", "sdb"} (twoDisks 1 10000000000 (· == "sda"))
        (twoDisks 2 10000000000 fun _ => true) ∧
      ∃ stats s', (after lowBits [(twoDisks 0 10000000000 fun _ => true).reading,
          (twoDisks 1 10000000000 (· == "sda")).reading]).diskIo lowBits
          (twoDisks 2 10000000000 fun _ => true).reading = (.ok stats, s') ∧
        ¬ stats.readBytesPerSecond.toNat *
            (twoDisks 1 10000000000 (· == "sda")).elapsed (twoDisks 2 10000000000 fun _ => true) ≤
          Direction.read.growth {"sda", "sdb"} (twoDisks 1 10000000000 (· == "sda"))
            (twoDisks 2 10000000000 fun _ => true) * 1000000000 := by
  constructor
  · exact twoDisks_watched (by decide) (by decide) (by decide) fun d => by cases d <;> decide
  · exact ⟨{ readBytesPerSecond := 10000000000, writeBytesPerSecond := 0 }, _, rfl, by decide⟩

end TinyProbe.Agent
