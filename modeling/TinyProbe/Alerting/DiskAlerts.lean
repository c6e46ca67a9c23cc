import TinyProbe.Alerting.Metrics
import TinyProbe.Live.Ingest
import Mathlib.Data.Nat.Cast.Order.Ring

/-!
# Filesystems without capacity

`MetricValue` skips a filesystem of no capacity in `disk_usage` and counts it in `disk_free_bytes`,
where its free space is zero. So such a filesystem leaves the alerts alone only where the least free
space is zero anyway.

`MetricFloat` says what the two loops rely on: a percentage of used space is a finite number that
`max` prefers to zero, `max` returns the larger of two finite numbers, and the conversion of uint64
keeps the order, not always strictly, and separates zero from the rest.
-/

namespace TinyProbe

/-- The float64 operations of the metrics. -/
class MetricFloat (F : Type) extends FiniteFloat F where
  finite_percent : ∀ used total : UInt64, total ≠ 0 → used ≤ total →
    finite (mul (div (ofNat used.toNat) (ofNat total.toNat)) (ofNat 100)) = true
  max_zero_percent : ∀ used total : UInt64, total ≠ 0 → used ≤ total →
    max (ofNat 0) (mul (div (ofNat used.toNat) (ofNat total.toNat)) (ofNat 100)) =
      mul (div (ofNat used.toNat) (ofNat total.toNat)) (ofNat 100)
  lt_irrefl : ∀ x, lt x x = false
  not_lt_trans : ∀ x y z, finite x = true → finite y = true → finite z = true →
    lt x y = false → lt y z = false → lt x z = false
  max_cases : ∀ x y, finite x = true → finite y = true →
    max x y = x ∧ lt x y = false ∨ max x y = y ∧ lt y x = false
  min_inf : ∀ n < 2 ^ 64, min inf (ofNat n) = ofNat n
  min_ofNat : ∀ m < 2 ^ 64, ∀ n < 2 ^ 64, min (ofNat m) (ofNat n) = ofNat (Nat.min m n)
  isInf_ofNat : ∀ n < 2 ^ 64, isInf (ofNat n) = false
  not_lt_ofNat : ∀ m n, m ≤ n → n < 2 ^ 64 → lt (ofNat n) (ofNat m) = false
  ofNat_eq_zero : ∀ n < 2 ^ 64, ofNat n = ofNat 0 → n = 0

namespace Exact

theorem lt_fin {p q : ℚ} : lt (fin p) (fin q) = false ↔ q ≤ p := by
  rw [lt, decide_eq_false_iff_not, not_lt]

theorem finite_iff {x : Exact} : finite x = true ↔ ∃ q, x = fin q := by
  cases x with
  | fin q => exact ⟨fun _ => ⟨q, rfl⟩, fun _ => rfl⟩
  | inf => exact ⟨(fun h => by cases h), (fun h => by obtain ⟨q, hq⟩ := h; cases hq)⟩

theorem max_fin (p q : ℚ) :
    (if lt (fin p) (fin q) then fin q else fin p) = fin (Max.max p q) := by
  cases h : lt (fin p) (fin q) with
  | false => rw [if_neg (by decide), max_eq_left (lt_fin.mp h)]
  | true => rw [if_pos rfl, max_eq_right (le_of_lt (of_decide_eq_true h))]

theorem min_fin (p q : ℚ) :
    (if lt (fin q) (fin p) then fin q else fin p) = fin (Min.min p q) := by
  cases h : lt (fin q) (fin p) with
  | false => rw [if_neg (by decide), min_eq_left (lt_fin.mp h)]
  | true => rw [if_pos rfl, min_eq_right (le_of_lt (of_decide_eq_true h))]

instance : MetricFloat Exact where
  finite_percent _ _ _ _ := rfl
  max_zero_percent used total _ _ := by
    have hnonneg : (0 : ℚ) ≤ (used.toNat : ℚ) / total.toNat * 100 :=
      mul_nonneg (div_nonneg (Nat.cast_nonneg _) (Nat.cast_nonneg _)) (by decide +kernel)
    exact (max_fin 0 _).trans (congrArg fin (max_eq_right hnonneg))
  lt_irrefl x := by
    cases x with
    | fin q => exact lt_fin.mpr (le_refl q)
    | inf => rfl
  not_lt_trans x y z hx hy hz hxy hyz := by
    obtain ⟨p, rfl⟩ := finite_iff.mp hx
    obtain ⟨q, rfl⟩ := finite_iff.mp hy
    obtain ⟨r, rfl⟩ := finite_iff.mp hz
    exact lt_fin.mpr (le_trans (lt_fin.mp hyz) (lt_fin.mp hxy))
  max_cases x y hx hy := by
    obtain ⟨p, rfl⟩ := finite_iff.mp hx
    obtain ⟨q, rfl⟩ := finite_iff.mp hy
    rcases le_total q p with hle | hle
    · exact Or.inl ⟨(max_fin p q).trans (congrArg fin (max_eq_left hle)), lt_fin.mpr hle⟩
    · exact Or.inr ⟨(max_fin p q).trans (congrArg fin (max_eq_right hle)), lt_fin.mpr hle⟩
  min_inf _ _ := rfl
  min_ofNat m _ n _ := (min_fin m n).trans (congrArg fin (Nat.cast_min m n).symm)
  isInf_ofNat _ _ := rfl
  not_lt_ofNat _ _ hle _ := lt_fin.mpr (Nat.cast_le.mpr hle)
  ofNat_eq_zero n _ h := Nat.cast_eq_zero.mp (Exact.fin.inj h)

end Exact

namespace Alerting

open Live Protocol

variable {F : Type} [MetricFloat F]

/-- The report's disks replaced. -/
def withDisks (snapshot : Snapshot F) (disks : List DiskStats) : Snapshot F :=
  { snapshot with report := { snapshot.report with disks } }

/-- Filesystems without capacity are inserted anywhere into a list. -/
inductive Inserted : List DiskStats → List DiskStats → Prop
  | nil : Inserted [] []
  | keep {base all : List DiskStats} (disk : DiskStats) :
      Inserted base all → Inserted (disk :: base) (disk :: all)
  | add {base all : List DiskStats} (disk : DiskStats) :
      disk.totalBytes = 0 → disk.usedBytes = 0 → Inserted base all → Inserted base (disk :: all)

/-- `disk.TotalBytes - disk.UsedBytes`. -/
def freeBytes (disk : DiskStats) : Nat := (disk.totalBytes - disk.usedBytes).toNat

/-- The filesystems with capacity. -/
def withCapacity (disks : List DiskStats) : List DiskStats :=
  disks.filter fun disk => disk.totalBytes != 0

/-- `value` is the usage of a filesystem with capacity, and none is used more. -/
structure HighestUsage (disks : List DiskStats) (value : F) : Prop where
  attained : ∃ disk ∈ withCapacity disks, value = usagePercent disk.usedBytes disk.totalBytes
  highest : ∀ disk ∈ withCapacity disks,
    Float64.lt value (usagePercent disk.usedBytes disk.totalBytes) = false

/-- `value` is the free space of a filesystem with capacity, and none has less. -/
structure LowestFree (disks : List DiskStats) (value : F) : Prop where
  attained : ∃ disk ∈ withCapacity disks,
    value = Float64.ofNat (disk.totalBytes.toNat - disk.usedBytes.toNat)
  lowest : ∀ disk ∈ withCapacity disks,
    Float64.lt (Float64.ofNat (disk.totalBytes.toNat - disk.usedBytes.toNat)) value = false

/-- The filesystems that `snapshot'` has more than `snapshot` do not influence the metrics. -/
structure Unaffected (snapshot snapshot' : Snapshot F) : Prop where
  same : ∀ metric, metricValue snapshot' metric = metricValue snapshot metric
  usage : HighestUsage snapshot.report.disks (metricValue snapshot' .diskUsage)
  free : LowestFree snapshot.report.disks (metricValue snapshot' .diskFreeBytes)
  noWrap : ∀ disk ∈ snapshot'.report.disks,
    (disk.totalBytes - disk.usedBytes).toNat = disk.totalBytes.toNat - disk.usedBytes.toNat

/-! ## Lists with more filesystems -/

section Insertion

variable {base all : List DiskStats}

theorem mem_withCapacity {disks : List DiskStats} {disk : DiskStats} :
    disk ∈ withCapacity disks ↔ disk ∈ disks ∧ disk.totalBytes ≠ 0 := by
  rw [withCapacity, List.mem_filter, bne_iff_ne]

/-- The filesystems with capacity are the same. -/
theorem Inserted.withCapacity_eq (h : Inserted base all) : withCapacity all = withCapacity base := by
  induction h with
  | nil => rfl
  | keep disk _ ih =>
    unfold withCapacity at ih ⊢
    rw [List.filter_cons, List.filter_cons, ih]
  | add disk htotal _ _ ih =>
    unfold withCapacity at ih ⊢
    rw [List.filter_cons, if_neg (by rw [htotal]; decide), ih]

/-- What is not in the shorter list has no capacity and no used space. -/
theorem Inserted.mem_cases (h : Inserted base all) {disk : DiskStats} (hdisk : disk ∈ all) :
    disk ∈ base ∨ disk.totalBytes = 0 ∧ disk.usedBytes = 0 := by
  induction h with
  | nil => exact Or.inl hdisk
  | keep d _ ih =>
    rcases List.mem_cons.mp hdisk with rfl | hdisk
    · exact Or.inl List.mem_cons_self
    · exact (ih hdisk).imp_left (List.mem_cons_of_mem d)
  | add d htotal hused _ ih =>
    rcases List.mem_cons.mp hdisk with rfl | hdisk
    · exact Or.inr ⟨htotal, hused⟩
    · exact ih hdisk

theorem Inserted.mem_all (h : Inserted base all) {disk : DiskStats} (hdisk : disk ∈ base) :
    disk ∈ all := by
  induction h with
  | nil => exact hdisk
  | keep d _ ih =>
    rcases List.mem_cons.mp hdisk with rfl | hdisk
    · exact List.mem_cons_self
    · exact List.mem_cons_of_mem d (ih hdisk)
  | add d _ _ _ ih => exact List.mem_cons_of_mem d (ih hdisk)

/-- With capacity everywhere nothing was inserted. -/
theorem Inserted.eq_of_capacity (h : Inserted base all) (hcap : ∀ disk ∈ all, disk.totalBytes ≠ 0) :
    all = base := by
  induction h with
  | nil => rfl
  | keep d _ ih => rw [ih fun disk hdisk => hcap disk (List.mem_cons_of_mem d hdisk)]
  | add d htotal _ _ _ => exact absurd htotal (hcap d List.mem_cons_self)

/-- Used space within the capacity does not wrap. -/
theorem freeBytes_eq {disk : DiskStats} (h : disk.usedBytes ≤ disk.totalBytes) :
    freeBytes disk = disk.totalBytes.toNat - disk.usedBytes.toNat :=
  UInt64.toNat_sub_of_le _ _ h

theorem freeBytes_lt (disk : DiskStats) : freeBytes disk < 2 ^ 64 := UInt64.toNat_lt _

theorem freeBytes_eq_zero_iff {disk : DiskStats} (h : disk.usedBytes ≤ disk.totalBytes) :
    freeBytes disk = 0 ↔ disk.usedBytes = disk.totalBytes := by
  have hle : disk.usedBytes.toNat ≤ disk.totalBytes.toNat := UInt64.le_iff_toNat_le.mp h
  rw [freeBytes_eq h, Nat.sub_eq_zero_iff_le]
  constructor
  · intro hge
    exact UInt64.toNat_inj.mp (le_antisymm hle hge)
  · intro heq
    rw [heq]

end Insertion

/-! ## The loops -/

section Loops

variable {disks : List DiskStats}

/-- The largest of finite numbers is one of them. -/
theorem foldl_max (xs : List F) (x : F) (hx : FiniteFloat.finite x = true)
    (hfinite : ∀ y ∈ xs, FiniteFloat.finite y = true) :
    xs.foldl Float64.max x ∈ x :: xs ∧
      ∀ y ∈ x :: xs, Float64.lt (xs.foldl Float64.max x) y = false := by
  induction xs generalizing x with
  | nil =>
    refine ⟨List.mem_singleton_self x, fun y hy => ?_⟩
    rw [List.mem_singleton.mp hy]
    exact MetricFloat.lt_irrefl x
  | cons y ys ih =>
    have hy : FiniteFloat.finite y = true := hfinite y List.mem_cons_self
    have hys : ∀ z ∈ ys, FiniteFloat.finite z = true := fun z hz =>
      hfinite z (List.mem_cons_of_mem y hz)
    -- the larger of the first two is at least both
    have hstep : FiniteFloat.finite (Float64.max x y) = true ∧
        (Float64.max x y = x ∨ Float64.max x y = y) ∧
          Float64.lt (Float64.max x y) x = false ∧ Float64.lt (Float64.max x y) y = false := by
      rcases MetricFloat.max_cases x y hx hy with ⟨heq, hlt⟩ | ⟨heq, hlt⟩
      · rw [heq]
        exact ⟨hx, Or.inl rfl, MetricFloat.lt_irrefl x, hlt⟩
      · rw [heq]
        exact ⟨hy, Or.inr rfl, hlt, MetricFloat.lt_irrefl y⟩
    obtain ⟨hmax, hwhich, hlx, hly⟩ := hstep
    obtain ⟨hmem, hall⟩ := ih (Float64.max x y) hmax hys
    have hresult : FiniteFloat.finite (ys.foldl Float64.max (Float64.max x y)) = true := by
      rcases List.mem_cons.mp hmem with heq | hmem
      · rw [heq]
        exact hmax
      · exact hys _ hmem
    have hbelow := hall (Float64.max x y) List.mem_cons_self
    refine ⟨?_, fun z hz => ?_⟩
    · rcases List.mem_cons.mp hmem with heq | hmem
      · rw [List.foldl_cons, heq]
        rcases hwhich with heq | heq
        · rw [heq]
          exact List.mem_cons_self
        · rw [heq]
          exact List.mem_cons_of_mem x List.mem_cons_self
      · exact List.mem_cons_of_mem x (List.mem_cons_of_mem y hmem)
    · rcases List.mem_cons.mp hz with rfl | hz
      · exact MetricFloat.not_lt_trans _ _ _ hresult hmax hx hbelow hlx
      · rcases List.mem_cons.mp hz with rfl | hz
        · exact MetricFloat.not_lt_trans _ _ _ hresult hmax hy hbelow hly
        · exact hall z (List.mem_cons_of_mem _ hz)

/-- The usage loop sees the filesystems with capacity only. -/
theorem maxDiskUsage_eq (disks : List DiskStats) :
    (maxDiskUsage disks : F) =
      ((withCapacity disks).map fun disk => usagePercent disk.usedBytes disk.totalBytes).foldl
        Float64.max (Float64.ofNat 0) := by
  rw [maxDiskUsage, withCapacity, List.foldl_map, List.foldl_filter]
  congr 1
  funext value disk
  by_cases htotal : disk.totalBytes = 0
  · rw [if_pos htotal, if_neg (by rw [htotal]; decide)]
  · rw [if_neg htotal, if_pos (bne_iff_ne.mpr htotal)]

/-- `disk_usage` is the maximum over the filesystems with capacity. -/
theorem maxDiskUsage_highest (hused : ∀ disk ∈ disks, disk.usedBytes ≤ disk.totalBytes)
    (hcap : withCapacity disks ≠ []) : HighestUsage disks (maxDiskUsage disks : F) := by
  have hpercent : ∀ disk ∈ withCapacity disks,
      FiniteFloat.finite (usagePercent disk.usedBytes disk.totalBytes : F) = true := by
    intro disk hdisk
    obtain ⟨hmem, htotal⟩ := mem_withCapacity.mp hdisk
    exact MetricFloat.finite_percent _ _ htotal (hused disk hmem)
  obtain ⟨first, rest, heq⟩ := List.exists_cons_of_ne_nil hcap
  obtain ⟨hmem, htotal⟩ := mem_withCapacity.mp (heq ▸ List.mem_cons_self : first ∈ _)
  have hfold : (maxDiskUsage disks : F) =
      (rest.map fun disk => usagePercent disk.usedBytes disk.totalBytes).foldl Float64.max
        (usagePercent first.usedBytes first.totalBytes) := by
    rw [maxDiskUsage_eq, heq, List.map_cons, List.foldl_cons]
    exact congrArg (List.foldl Float64.max · _)
      (MetricFloat.max_zero_percent _ _ htotal (hused first hmem))
  obtain ⟨hattained, hall⟩ := foldl_max
    (rest.map fun disk => (usagePercent disk.usedBytes disk.totalBytes : F))
    (usagePercent first.usedBytes first.totalBytes)
    (hpercent first (heq ▸ List.mem_cons_self))
    (fun y hy => by
      obtain ⟨disk, hdisk, rfl⟩ := List.mem_map.mp hy
      exact hpercent disk (heq ▸ List.mem_cons_of_mem first hdisk))
  have hpercents : (usagePercent first.usedBytes first.totalBytes : F) ::
      rest.map (fun disk => usagePercent disk.usedBytes disk.totalBytes) =
        (withCapacity disks).map fun disk => usagePercent disk.usedBytes disk.totalBytes := by
    rw [heq, List.map_cons]
  rw [hpercents, ← hfold] at hattained hall
  refine ⟨?_, fun disk hdisk => hall _ (List.mem_map.mpr ⟨disk, hdisk, rfl⟩)⟩
  obtain ⟨disk, hdisk, hvalue⟩ := List.mem_map.mp hattained
  exact ⟨disk, hdisk, hvalue.symm⟩

theorem foldl_min_ofNat (ns : List Nat) (n : Nat) (hn : n < 2 ^ 64) (hns : ∀ m ∈ ns, m < 2 ^ 64) :
    ns.foldl (fun value m => Float64.min value (Float64.ofNat m)) (Float64.ofNat n : F) =
      Float64.ofNat (ns.foldl Nat.min n) := by
  induction ns generalizing n with
  | nil => rfl
  | cons m ms ih =>
    have hm : m < 2 ^ 64 := hns m List.mem_cons_self
    rw [List.foldl_cons, List.foldl_cons, MetricFloat.min_ofNat n hn m hm]
    exact ih (Nat.min n m) (Nat.lt_of_le_of_lt (Nat.min_le_left n m) hn)
      fun k hk => hns k (List.mem_cons_of_mem m hk)

/-- The free space loop ends with the least free space of all filesystems. -/
theorem diskFree_eq (snapshot : Snapshot F) (hne : snapshot.report.disks ≠ []) :
    ∃ free, (snapshot.report.disks.map freeBytes).min? = some free ∧
      metricValue snapshot .diskFreeBytes = Float64.ofNat free := by
  obtain ⟨first, rest, heq⟩ := List.exists_cons_of_ne_nil hne
  have hrest : ∀ m ∈ rest.map freeBytes, m < 2 ^ 64 := by
    intro m hm
    obtain ⟨disk, _, rfl⟩ := List.mem_map.mp hm
    exact freeBytes_lt disk
  have hmin : ∃ free, (snapshot.report.disks.map freeBytes).min? = some free ∧
      (minDiskFree snapshot.report.disks : F) = Float64.ofNat free := by
    refine ⟨(rest.map freeBytes).foldl Nat.min (freeBytes first), ?_, ?_⟩
    · rw [heq, List.map_cons, List.min?_cons']
    · rw [heq, ← foldl_min_ofNat _ _ (freeBytes_lt first) hrest, List.foldl_map, minDiskFree,
        List.foldl_cons]
      exact congrArg (List.foldl _ · rest) (MetricFloat.min_inf _ (freeBytes_lt first))
  obtain ⟨free, hfree, hvalue⟩ := hmin
  have hlt : free < 2 ^ 64 := by
    obtain ⟨disk, _, rfl⟩ := List.mem_map.mp (List.min?_mem hfree)
    exact freeBytes_lt disk
  refine ⟨free, hfree, ?_⟩
  show (if Float64.isInf (minDiskFree snapshot.report.disks : F) then Float64.ofNat 0
    else minDiskFree snapshot.report.disks) = Float64.ofNat free
  rw [hvalue, MetricFloat.isInf_ofNat free hlt, if_neg (by decide)]

end Loops

/-! ## The two readings of the free space -/

section Main

variable {snapshot : Snapshot F} {disks : List DiskStats}

/-- The least free space is the least one over the filesystems with capacity as soon as there is no
filesystem without capacity, or one of the others is full. -/
theorem lowestFree_of (hvalid : Validated snapshot.report)
    (hins : Inserted snapshot.report.disks disks)
    (hall : (∀ disk ∈ disks, disk.totalBytes ≠ 0) ∨
      ∃ disk ∈ snapshot.report.disks, disk.totalBytes ≠ 0 ∧ disk.usedBytes = disk.totalBytes)
    {free : Nat} (hfree : (disks.map freeBytes).min? = some free) :
    (snapshot.report.disks.map freeBytes).min? = some free ∧
      LowestFree snapshot.report.disks (Float64.ofNat free : F) := by
  obtain ⟨hmem, hleast⟩ := List.min?_eq_some_iff.mp hfree
  have hbelow : ∀ disk ∈ snapshot.report.disks, free ≤ freeBytes disk := fun disk hdisk =>
    hleast _ (List.mem_map.mpr ⟨disk, hins.mem_all hdisk, rfl⟩)
  -- one filesystem with capacity has no more than that
  have hattained : ∃ disk ∈ snapshot.report.disks, disk.totalBytes ≠ 0 ∧ freeBytes disk = free := by
    rcases hall with hcap | ⟨disk, hdisk, htotal, hfull⟩
    · obtain ⟨disk, hdisk, hvalue⟩ := List.mem_map.mp hmem
      rw [hins.eq_of_capacity hcap] at hdisk
      exact ⟨disk, hdisk, hcap disk (hins.mem_all hdisk), hvalue⟩
    · have hzero : freeBytes disk = 0 := (freeBytes_eq_zero_iff (hvalid.disks disk hdisk)).mpr hfull
      have hle := hbelow disk hdisk
      exact ⟨disk, hdisk, htotal, by omega⟩
  obtain ⟨disk, hdisk, htotal, hvalue⟩ := hattained
  refine ⟨List.min?_eq_some_iff.mpr ⟨List.mem_map.mpr ⟨disk, hdisk, hvalue⟩, fun m hm => ?_⟩, ?_, ?_⟩
  · obtain ⟨other, hother, rfl⟩ := List.mem_map.mp hm
    exact hbelow other hother
  · refine ⟨disk, mem_withCapacity.mpr ⟨hdisk, htotal⟩, ?_⟩
    rw [← hvalue, freeBytes_eq (hvalid.disks disk hdisk)]
  · intro other hother
    have hmem := (mem_withCapacity.mp hother).1
    have hle := hbelow other hmem
    have hlt := freeBytes_lt other
    rw [freeBytes_eq (hvalid.disks other hmem)] at hle hlt
    exact MetricFloat.not_lt_ofNat _ _ hle hlt

/-- **Filesystems without capacity leave the metrics alone** exactly where there are none, or where
a filesystem with capacity is full. Such a filesystem has no usage and no free space, so it never
changes the largest usage, but it is the smallest free space unless that was zero before. -/
theorem unaffected_iff (hvalid : validateReport snapshot.report = .ok ())
    (hcap : ∃ disk ∈ snapshot.report.disks, 0 < disk.totalBytes)
    (hins : Inserted snapshot.report.disks disks) :
    Unaffected snapshot (withDisks snapshot disks) ↔
      (∀ disk ∈ disks, disk.totalBytes ≠ 0) ∨
        ∃ disk ∈ snapshot.report.disks, disk.totalBytes ≠ 0 ∧ disk.usedBytes = disk.totalBytes := by
  have hchecked := validateReport_ok_iff.mp hvalid
  have hnowrap : ∀ disk ∈ disks, disk.usedBytes ≤ disk.totalBytes := by
    intro disk hdisk
    rcases hins.mem_cases hdisk with hdisk | ⟨htotal, hused⟩
    · exact hchecked.disks disk hdisk
    · rw [htotal, hused]
      exact UInt64.le_refl 0
  have hne : disks ≠ [] := by
    obtain ⟨disk, hdisk, _⟩ := hcap
    exact List.ne_nil_of_mem (hins.mem_all hdisk)
  obtain ⟨free, hfree, hvalue⟩ := diskFree_eq (withDisks snapshot disks) hne
  constructor
  · intro h
    by_contra hcond
    push Not at hcond
    obtain ⟨⟨empty, hempty, htotal⟩, hfull⟩ := hcond
    -- a filesystem without capacity has no free space, so the least free space is zero
    have hzero : free = 0 := by
      have hle := (List.min?_eq_some_iff.mp hfree).2 _ (List.mem_map.mpr ⟨empty, hempty, rfl⟩)
      have hused := hnowrap empty hempty
      have heq : empty.usedBytes = empty.totalBytes := by
        rw [htotal] at hused ⊢
        exact UInt64.toNat_inj.mp (Nat.le_zero.mp (UInt64.le_iff_toNat_le.mp hused))
      rw [(freeBytes_eq_zero_iff hused).mpr heq] at hle
      exact Nat.le_zero.mp hle
    obtain ⟨disk, hdisk, hattained⟩ := h.free.attained
    obtain ⟨hmem, hcapacity⟩ := mem_withCapacity.mp hdisk
    rw [hvalue, hzero, ← freeBytes_eq (hchecked.disks disk hmem)] at hattained
    have hnone := MetricFloat.ofNat_eq_zero _ (freeBytes_lt disk) hattained.symm
    exact hfull disk hmem hcapacity ((freeBytes_eq_zero_iff (hchecked.disks disk hmem)).mp hnone)
  · intro hall
    obtain ⟨hbase, hlowest⟩ := lowestFree_of hchecked hins hall hfree
    obtain ⟨free', hfree', hvalue'⟩ := diskFree_eq snapshot hchecked.disks_ne
    rw [hbase] at hfree'
    cases hfree'
    have husage : (maxDiskUsage disks : F) = maxDiskUsage snapshot.report.disks := by
      rw [maxDiskUsage_eq, maxDiskUsage_eq, hins.withCapacity_eq]
    refine ⟨fun metric => ?_, ?_, ?_, fun disk hdisk => freeBytes_eq (hnowrap disk hdisk)⟩
    · cases metric with
      | diskUsage => exact husage
      | diskFreeBytes => rw [hvalue, hvalue']
      | _ => rfl
    · show HighestUsage snapshot.report.disks (maxDiskUsage disks : F)
      rw [husage]
      refine maxDiskUsage_highest hchecked.disks ?_
      obtain ⟨disk, hdisk, hpos⟩ := hcap
      refine List.ne_nil_of_mem (mem_withCapacity.mpr ⟨hdisk, fun hzero => ?_⟩)
      rw [hzero] at hpos
      exact absurd hpos (UInt64.lt_irrefl 0)
    · rw [hvalue]
      exact hlowest

end Main

/-- The snapshot of a server with these filesystems. -/
def diskSnapshot (disks : List DiskStats) : Snapshot Exact :=
  { serverID := 1, serverName := "web", online := true, lastReceivedAt := ⟨0⟩, sourceIP := "10.0.0.1"
    report := { AgentReport.ofCPU (.fin 10) with collectedAtUnix := 1, hostname := "web", disks } }

def rootDisk : DiskStats := { mountpoint := "/", totalBytes := 100, usedBytes := 40 }

def fullDisk : DiskStats := { mountpoint := "/data", totalBytes := 100, usedBytes := 100 }

def emptyDisk : DiskStats := { mountpoint := "/run/snapd/ns", totalBytes := 0, usedBytes := 0 }

/-- One filesystem without capacity, and the free space falls from sixty bytes to none. -/
theorem empty_lowers_free :
    validateReport (diskSnapshot [rootDisk]).report = .ok () ∧
      (∃ disk ∈ (diskSnapshot [rootDisk]).report.disks, 0 < disk.totalBytes) ∧
        Inserted (diskSnapshot [rootDisk]).report.disks [rootDisk, emptyDisk] ∧
          metricValue (diskSnapshot [rootDisk]) .diskFreeBytes = .fin 60 ∧
            metricValue (withDisks (diskSnapshot [rootDisk]) [rootDisk, emptyDisk]) .diskFreeBytes =
              .fin 0 :=
  ⟨by decide +kernel, ⟨rootDisk, List.mem_singleton_self rootDisk, by decide⟩,
    .keep rootDisk (.add emptyDisk rfl rfl .nil), by decide +kernel, by decide +kernel⟩

/-- Beside a full filesystem it changes nothing. -/
theorem unaffected_full :
    Unaffected (diskSnapshot [rootDisk, fullDisk])
      (withDisks (diskSnapshot [rootDisk, fullDisk]) [rootDisk, emptyDisk, fullDisk]) :=
  (unaffected_iff (by decide +kernel) ⟨rootDisk, List.mem_cons_self, by decide⟩
      (.keep rootDisk (.add emptyDisk rfl rfl (.keep fullDisk .nil)))).mpr
    (Or.inr ⟨fullDisk, List.mem_cons_of_mem rootDisk (List.mem_singleton_self fullDisk),
      by decide, rfl⟩)

end Alerting

end TinyProbe
