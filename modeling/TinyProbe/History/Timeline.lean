import TinyProbe.History.Archive
import TinyProbe.History.Query
import TinyProbe.Servers.Registry

/-!
# From the stored minutes to the chart

`Handler.Get` answers with the minutes of the last day, week or month, and the page puts each
minute in a slot of its time axis, one slot for every minute of the range. Between the two lie five
pieces of minute arithmetic: the key of a report, the cutoff of retention, the window of the
handler, the range check of `Query` and that of the page.

They agree (`onAxis`): for every clock reading from year 1 on whose milliseconds are a safe integer
the window passes both range checks, retention has not deleted a minute of it, every minute in the
answer has a slot of its own, and a slot is empty exactly when there was no row for its minute at a
page read of the call.

The page keeps the index of a response in a `WeakMap`; what it keeps is what it would compute.
-/

namespace TinyProbe.History

open TinyProbe.Run Protocol

variable {F E : Type}

/-! ## The handler -/

/-- `historyDuration`. -/
def historyDuration (value : String) : Option Duration :=
  match value with
  | "1d" => some (24 * 3600 * Time.second)
  | "7d" => some (7 * 24 * 3600 * Time.second)
  | "30d" => some (30 * 24 * 3600 * Time.second)
  | _ => none

/-- `to` of `Handler.Get`, as `Unix()` gives it. -/
def windowTo (now : Time) : Int64 := Int64.ofInt now.truncateMinute.unix

/-- `from` of `Handler.Get`. -/
def windowFrom (now : Time) (duration : Duration) : Int64 :=
  Int64.ofInt (now.truncateMinute.add (-duration)).unix

/-- What `Handler.Get` writes. -/
structure HistoryResponse (F : Type) where
  fromUnix : Int64
  toUnix : Int64
  points : List (MinuteRecord F)

structure HttpError where
  status : Nat
  error : String
deriving DecidableEq

/-- `Handler.Get`; `id` is what `strconv.ParseInt` makes of the path. -/
def get (w : Surroundings F E) (servers : Int → Except Servers.ServiceError Servers.Server) (now : Time)
    (range : String) (id : Option Int) : Except HttpError (HistoryResponse F) :=
  match historyDuration range with
  | none => .error ⟨400, "invalid history range"⟩
  | some duration =>
    match id with
    | none => .error ⟨400, "invalid server input"⟩
    | some serverID =>
      if serverID < 1 then .error ⟨400, "invalid server input"⟩
      else
        match servers serverID with
        | .error .notFound => .error ⟨404, "server not found"⟩
        | .error _ => .error ⟨500, "internal server error"⟩
        | .ok _ =>
          match query w serverID (windowFrom now duration) (windowTo now) with
          | .error (.invalidRange _ _) => .error ⟨400, "invalid history range"⟩
          | .error _ => .error ⟨500, "internal server error"⟩
          | .ok points =>
            .ok { fromUnix := windowFrom now duration, toUnix := windowTo now, points }

/-- What an answer of `Get` says about the call. -/
theorem get_ok {w : Surroundings F E} {servers : Int → Except Servers.ServiceError Servers.Server}
    {now : Time} {range : String} {id : Option Int} {response : HistoryResponse F}
    (h : get w servers now range id = .ok response) :
    ∃ duration serverID, historyDuration range = some duration ∧ id = some serverID ∧
      response.fromUnix = windowFrom now duration ∧ response.toUnix = windowTo now ∧
      query w serverID (windowFrom now duration) (windowTo now) = .ok response.points := by
  unfold get at h
  split at h
  next => cases h
  next duration hduration =>
    split at h
    next => cases h
    next serverID =>
      split at h
      next => cases h
      next =>
        split at h
        next => cases h
        next => cases h
        next =>
          split at h
          next => cases h
          next => cases h
          next points hquery =>
            cases h
            exact ⟨duration, serverID, hduration, rfl, rfl, rfl, hquery⟩

/-! ## The page -/

/-- `Number.isSafeInteger`. -/
def isSafeInteger (n : Int) : Bool := decide (-(2 ^ 53 - 1) ≤ n) && decide (n ≤ 2 ^ 53 - 1)

theorem isSafeInteger_iff {n : Int} :
    isSafeInteger n = true ↔ -(2 ^ 53 - 1) ≤ n ∧ n ≤ 2 ^ 53 - 1 := by
  rw [isSafeInteger, Bool.and_eq_true, decide_eq_true_iff, decide_eq_true_iff]

/-- `MAX_HISTORY_SPAN_SECONDS`. -/
def maxHistorySpanSeconds : Int := 30 * 24 * 60 * 60

/-- `isValidHistoryRange`. A product that is no safe integer does not round to one. -/
def isValidHistoryRange (fromUnix toUnix : Int) : Bool :=
  isSafeInteger fromUnix && isSafeInteger toUnix &&
  isSafeInteger (fromUnix * 1000) && isSafeInteger (toUnix * 1000) &&
  decide (fromUnix.tmod 60 = 0) && decide (toUnix.tmod 60 = 0) &&
  decide (fromUnix ≤ toUnix) && decide (toUnix - fromUnix ≤ maxHistorySpanSeconds)

/-- `AlignedHistoryIndex`. -/
structure AlignedHistoryIndex (F : Type) where
  fromUnix : Int
  toUnix : Int
  minuteCount : Int
  records : List (Option (MinuteRecord F))

/-- The slot of a point, unless the point is skipped. -/
def slot? (fromUnix toUnix : Int) (point : MinuteRecord F) : Option Nat :=
  if !isSafeInteger point.minuteUnix || decide (point.minuteUnix.tmod 60 ≠ 0) ||
      decide (point.minuteUnix < fromUnix) || decide (toUnix < point.minuteUnix) then none
  else some ((point.minuteUnix - fromUnix) / 60).toNat

/-- One round of the loop. -/
def place (fromUnix toUnix : Int) (records : List (Option (MinuteRecord F)))
    (point : MinuteRecord F) : List (Option (MinuteRecord F)) :=
  match slot? fromUnix toUnix point with
  | none => records
  | some index => records.set index (some point)

/-- The index of a response with a valid range. -/
def aligned (history : HistoryResponse F) : AlignedHistoryIndex F :=
  let fromUnix := history.fromUnix.toInt
  let toUnix := history.toUnix.toInt
  let minuteCount := (toUnix - fromUnix) / 60 + 1
  { fromUnix, toUnix, minuteCount
    records := history.points.foldl (place fromUnix toUnix)
      (List.replicate minuteCount.toNat none) }

/-- `getAlignedHistoryIndex`. -/
def getAlignedHistoryIndex (history : HistoryResponse F) : Option (AlignedHistoryIndex F) :=
  if !isValidHistoryRange history.fromUnix.toInt history.toUnix.toInt then none
  else some (aligned history)

section Slots

variable {fromUnix toUnix : Int} {points : List (MinuteRecord F)} {point : MinuteRecord F}
  {records : List (Option (MinuteRecord F))} {i : Nat}

theorem length_place : (place fromUnix toUnix records point).length = records.length := by
  unfold place
  split
  next => rfl
  next => exact List.length_set

theorem length_foldl_place :
    (points.foldl (place fromUnix toUnix) records).length = records.length := by
  induction points generalizing records with
  | nil => rfl
  | cons point points ih => rw [List.foldl_cons, ih, length_place]

/-- A slot that no point takes stays as it is. -/
theorem getElem?_foldl_place_of_not (h : ∀ p ∈ points, slot? fromUnix toUnix p ≠ some i) :
    (points.foldl (place fromUnix toUnix) records)[i]? = records[i]? := by
  induction points generalizing records with
  | nil => rfl
  | cons point points ih =>
    rw [List.foldl_cons, ih fun p hp => h p (List.mem_cons_of_mem _ hp)]
    unfold place
    split
    next => rfl
    next j hj =>
      refine List.getElem?_set_ne ?_
      rintro rfl
      exact h point List.mem_cons_self hj

/-- **A point that shares its slot with no other is in it.** -/
theorem getElem?_foldl_place_of_mem
    (hdistinct : points.Pairwise fun p q => slot? fromUnix toUnix p ≠ slot? fromUnix toUnix q)
    (hpoint : point ∈ points) (hslot : slot? fromUnix toUnix point = some i)
    (hi : i < records.length) :
    (points.foldl (place fromUnix toUnix) records)[i]? = some (some point) := by
  induction points generalizing records with
  | nil => cases hpoint
  | cons p points ih =>
    obtain ⟨hhead, htail⟩ := List.pairwise_cons.mp hdistinct
    rw [List.foldl_cons]
    rcases List.mem_cons.mp hpoint with rfl | hmem
    · rw [getElem?_foldl_place_of_not fun q hq heq => hhead q hq (hslot.trans heq.symm), place, hslot]
      exact List.getElem?_set_self hi
    · apply ih htail hmem
      rwa [length_place]

/-- A valid range, in numbers. -/
theorem bounds_of_valid (h : isValidHistoryRange fromUnix toUnix = true) :
    -(2 ^ 53 - 1) ≤ fromUnix ∧ toUnix ≤ 2 ^ 53 - 1 ∧ fromUnix % 60 = 0 ∧ toUnix % 60 = 0 ∧
      fromUnix ≤ toUnix := by
  simp only [isValidHistoryRange, isSafeInteger_iff, Bool.and_eq_true, decide_eq_true_iff,
    ← Int.dvd_iff_tmod_eq_zero] at h
  omega

/-- The slot of a minute of a valid range. -/
theorem slot?_eq_some (hvalid : isValidHistoryRange fromUnix toUnix = true)
    (h60 : point.minuteUnix % 60 = 0) (hfrom : fromUnix ≤ point.minuteUnix)
    (hto : point.minuteUnix ≤ toUnix) :
    slot? fromUnix toUnix point = some i ↔ point.minuteUnix = fromUnix + 60 * i := by
  have hbounds := bounds_of_valid hvalid
  have hsafe : isSafeInteger point.minuteUnix = true := isSafeInteger_iff.mpr (by omega)
  have htmod : point.minuteUnix.tmod 60 = 0 := Int.dvd_iff_tmod_eq_zero.mp (by omega)
  have hkept : ¬ (!isSafeInteger point.minuteUnix || decide (point.minuteUnix.tmod 60 ≠ 0) ||
      decide (point.minuteUnix < fromUnix) || decide (toUnix < point.minuteUnix)) = true := by
    simp only [hsafe, htmod, Bool.not_true, Bool.false_or, ne_eq, not_true_eq_false, decide_false,
      Bool.or_eq_true, decide_eq_true_iff]
    omega
  rw [slot?, if_neg hkept, Option.some_inj]
  omega

end Slots

section Aligned

variable {history : HistoryResponse F} {i : Nat}

theorem length_aligned : (aligned history).records.length =
    ((history.toUnix.toInt - history.fromUnix.toInt) / 60 + 1).toNat := by
  rw [aligned, length_foldl_place, List.length_replicate]

variable (hvalid : isValidHistoryRange history.fromUnix.toInt history.toUnix.toInt = true)
  (h60 : ∀ p ∈ history.points, p.minuteUnix % 60 = 0)
  (hwithin : ∀ p ∈ history.points,
    history.fromUnix.toInt ≤ p.minuteUnix ∧ p.minuteUnix ≤ history.toUnix.toInt)

include hvalid h60 hwithin

/-- A point of the range has a slot. -/
theorem exists_slot {p : MinuteRecord F} (hp : p ∈ history.points) :
    ∃ i < (aligned history).records.length, p.minuteUnix = history.fromUnix.toInt + 60 * i := by
  have hbounds := bounds_of_valid hvalid
  have hminute := h60 p hp
  have hrange := hwithin p hp
  rw [length_aligned]
  exact ⟨((p.minuteUnix - history.fromUnix.toInt) / 60).toNat, by omega, by omega⟩

/-- **A point is in the slot of its minute.** -/
theorem aligned_taken (hascending : history.points.Pairwise fun p q => p.minuteUnix < q.minuteUnix)
    {p : MinuteRecord F} (hp : p ∈ history.points)
    (hminute : p.minuteUnix = history.fromUnix.toInt + 60 * i) :
    (aligned history).records[i]? = some (some p) := by
  have hslot : ∀ {j : Nat} {q : MinuteRecord F}, q ∈ history.points →
      (slot? history.fromUnix.toInt history.toUnix.toInt q = some j ↔
        q.minuteUnix = history.fromUnix.toInt + 60 * j) := fun hq =>
    slot?_eq_some hvalid (h60 _ hq) (hwithin _ hq).1 (hwithin _ hq).2
  have hdistinct : history.points.Pairwise fun p q =>
      slot? history.fromUnix.toInt history.toUnix.toInt p ≠
        slot? history.fromUnix.toInt history.toUnix.toInt q := by
    apply hascending.imp_of_mem
    intro a b ha hb hlt heq
    obtain ⟨j, _, hj⟩ := exists_slot hvalid h60 hwithin ha
    have hb' := (hslot hb).mp (heq ▸ (hslot ha).mpr hj)
    omega
  refine getElem?_foldl_place_of_mem hdistinct hp ((hslot hp).mpr hminute) ?_
  have hbounds := bounds_of_valid hvalid
  have hto := (hwithin p hp).2
  rw [List.length_replicate]
  omega

/-- **A minute with no point leaves its slot empty.** -/
theorem aligned_free (hi : i < (aligned history).records.length)
    (h : ∀ p ∈ history.points, p.minuteUnix ≠ history.fromUnix.toInt + 60 * i) :
    (aligned history).records[i]? = some none := by
  rw [length_aligned] at hi
  rw [aligned, getElem?_foldl_place_of_not, List.getElem?_replicate, if_pos hi]
  intro p hp hslot
  exact h p hp ((slot?_eq_some hvalid (h60 p hp) (hwithin p hp).1 (hwithin p hp).2).mp hslot)

end Aligned

/-! ## The window -/

section Window

variable {now : Time} {range : String} {duration : Duration}

/-- A duration of the handler, in seconds. -/
theorem historyDuration_seconds (h : historyDuration range = some duration) :
    ∃ n : Int, (-duration).toInt = -(n * 1000000000) ∧ n % 60 = 0 ∧ 0 < n ∧
      n ≤ 30 * 24 * 60 * 60 := by
  unfold historyDuration at h
  split at h
  next =>
    cases h
    exact ⟨24 * 60 * 60, by decide, by decide, by decide, by decide⟩
  next =>
    cases h
    exact ⟨7 * 24 * 60 * 60, by decide, by decide, by decide, by decide⟩
  next =>
    cases h
    exact ⟨30 * 24 * 60 * 60, by decide, by decide, by decide, by decide⟩
  next => cases h

/-- The bounds of the window, as integers. -/
theorem window (hyear : Time.zero.ns ≤ now.ns) (hsafe : isSafeInteger now.unixMilli = true)
    (h : historyDuration range = some duration) :
    ∃ n : Int, 0 < n ∧ n ≤ 30 * 24 * 60 * 60 ∧ n % 60 = 0 ∧
      (windowTo now).toInt = now.truncateMinute.unix ∧
      (windowFrom now duration).toInt = now.truncateMinute.unix - n ∧
      -62135596800 ≤ now.truncateMinute.unix ∧ now.truncateMinute.unix * 1000 ≤ 2 ^ 53 - 1 := by
  obtain ⟨n, hn, h60, hpos, hle⟩ := historyDuration_seconds h
  rw [isSafeInteger_iff, Time.unixMilli] at hsafe
  have hzero : Time.zero.ns = -62135596800 * 1000000000 := rfl
  have hlower : -62135596800 ≤ now.truncateMinute.unix := by
    simp only [Time.unix, Time.truncateMinute, Time.minute]
    omega
  have hupper : now.truncateMinute.unix * 1000 ≤ 2 ^ 53 - 1 := by
    simp only [Time.unix, Time.truncateMinute, Time.minute]
    omega
  have hfrom : (now.truncateMinute.add (-duration)).unix = now.truncateMinute.unix - n := by
    simp only [Time.add, hn, Time.unix]
    omega
  refine ⟨n, hpos, hle, h60, ?_, ?_, hlower, hupper⟩
  · exact Int64.toInt_ofInt_of_le (by omega) (by omega)
  · rw [windowFrom, hfrom]
    exact Int64.toInt_ofInt_of_le (by omega) (by omega)

/-- **The window passes both range checks.** -/
theorem window_accepted (hyear : Time.zero.ns ≤ now.ns)
    (hsafe : isSafeInteger now.unixMilli = true) (h : historyDuration range = some duration) :
    outOfRange (windowFrom now duration) (windowTo now) = false ∧
      isValidHistoryRange (windowFrom now duration).toInt (windowTo now).toInt = true := by
  obtain ⟨n, hpos, hle, h60, hto, hfrom, hlower, hupper⟩ := window hyear hsafe h
  have hminute := truncateMinute_unix_mod now
  constructor
  · rw [← Bool.not_eq_true, outOfRange_iff, hto, hfrom]
    omega
  · rw [hto, hfrom]
    have hspan : maxHistorySpanSeconds = 30 * 24 * 60 * 60 := rfl
    simp only [isValidHistoryRange, isSafeInteger_iff, Bool.and_eq_true, decide_eq_true_iff,
      ← Int.dvd_iff_tmod_eq_zero]
    omega

/-- **Retention keeps the window**: its cutoff is not behind the longest one. -/
theorem cutoffUnix_le (hyear : Time.zero.ns ≤ now.ns)
    (hsafe : isSafeInteger now.unixMilli = true) (h : historyDuration range = some duration) :
    cutoffUnix now ≤ (windowFrom now duration).toInt := by
  obtain ⟨n, hpos, hle, h60, hto, hfrom, hlower, hupper⟩ := window hyear hsafe h
  have hretention : (-historyRetention).toInt = -(30 * 24 * 60 * 60 * 1000000000) := by decide
  rw [hfrom, cutoffUnix, Time.add, hretention]
  simp only [Time.unix, Time.truncateMinute, Time.minute]
  omega

end Window

/-! ## A call and what happens around it -/

section Call

/-- A call of `Get`: what has happened before its first page read and between two of them, and how
its statements, its context and its payloads fare. -/
structure Call (F : Type) where
  before : List (Archive.Action F)
  between : Nat → List (Archive.Action F)
  fails : Nat → Option PageError
  ctxErr : Nat → Option String
  decodePayload : MinutePayload F → Except String (MinutePayload F)
  servers : Int → Except Servers.ServiceError Servers.Server

namespace Call

/-- Everything up to page read `j`. -/
def upTo (c : Call F) : Nat → List (Archive.Action F)
  | 0 => c.before
  | j + 1 => c.upTo j ++ c.between j

/-- The clock readings of retention are not later than that of the call. -/
def NotAfter (c : Call F) (now : Time) : Prop :=
  (∀ a ∈ c.before, a.notAfter now) ∧ ∀ j, ∀ a ∈ c.between j, a.notAfter now

theorem NotAfter.upTo {c : Call F} {now : Time} (h : c.NotAfter now) (j : Nat) :
    ∀ a ∈ c.upTo j, a.notAfter now := by
  induction j with
  | zero => exact h.1
  | succ j ih =>
    intro a ha
    exact (List.mem_append.mp ha).elim (ih a) (h.2 j a)

variable [Float64 F]

/-- The archive at each page read. -/
def archive (c : Call F) : Nat → Archive F
  | 0 => run Archive.step .initial c.before
  | j + 1 => run Archive.step (c.archive j) (c.between j)

theorem archive_eq (c : Call F) (j : Nat) : c.archive j = run Archive.step .initial (c.upTo j) := by
  induction j with
  | zero => rfl
  | succ j ih => rw [archive, upTo, run_append, ih]

theorem aligned_archive (c : Call F) (j : Nat) : (c.archive j).aggregator.Aligned := by
  rw [archive_eq]
  exact Archive.aligned_run _

/-- What the call meets. -/
def surroundings (c : Call F) : Surroundings F (MinutePayload F) where
  read j :=
    match c.fails j with
    | some err => .error err
    | none => .ok { rows := (c.archive j).aggregator.rows, aligned := (c.aligned_archive j).rows }
  ctxErr := c.ctxErr
  decodePayload := c.decodePayload

theorem read_ok {c : Call F} {j : Nat} {t : MinuteTable (MinutePayload F)}
    (h : c.surroundings.read j = .ok t) (serverID minuteUnix : Int) :
    t.row? serverID minuteUnix = (c.archive j).row? ⟨serverID, minuteUnix⟩ := by
  simp only [surroundings] at h
  split at h
  next => cases h
  next =>
    cases h
    rfl

/-- The server has a row for a minute at page read `j`. -/
def Holds (c : Call F) (j : Nat) (serverID minuteUnix : Int) : Prop :=
  ∃ payload, (c.archive j).row? ⟨serverID, minuteUnix⟩ = some payload

/-- A response is on the time axis: each point has a slot of its own, and a slot is taken exactly
when the server had a row for its minute at one of the `k` page reads of the call. -/
structure Shown (c : Call F) (serverID : Int) (k : Nat) (response : HistoryResponse F)
    (index : AlignedHistoryIndex F) : Prop where
  answer : Answer c.surroundings serverID response.fromUnix.toInt response.toUnix.toInt k
    response.points
  indexed : getAlignedHistoryIndex response = some index
  length : (index.records.length : Int) =
    (response.toUnix.toInt - response.fromUnix.toInt) / 60 + 1
  slots : ∀ p ∈ response.points, ∃ i < index.records.length,
    p.minuteUnix = response.fromUnix.toInt + 60 * i ∧ index.records[i]? = some (some p)
  distinct : response.points.Pairwise fun p q => p.minuteUnix ≠ q.minuteUnix
  held : ∀ i < index.records.length, ∃ j < k, (∃ p, index.records[i]? = some (some p)) ↔
    c.Holds j serverID (response.fromUnix.toInt + 60 * i)

/-- The arithmetic of the page agrees with that of the server: all clauses of the module's doc. -/
structure OnAxis (c : Call F) (now : Time) : Prop where
  /-- Every key of a row is a multiple of sixty. -/
  keys : ∀ j serverID minuteUnix, c.Holds j serverID minuteUnix → minuteUnix % 60 = 0
  /-- The window passes both range checks. -/
  accepted : ∀ range duration, historyDuration range = some duration →
    outOfRange (windowFrom now duration) (windowTo now) = false ∧
      isValidHistoryRange (windowFrom now duration).toInt (windowTo now).toInt = true
  /-- Retention has not deleted a row of it. -/
  kept : ∀ range duration, historyDuration range = some duration →
    ∀ j, ∀ key ∈ (c.archive j).expired, key.minuteUnix < (windowFrom now duration).toInt
  /-- The answer is on the time axis. -/
  shown : ∀ range id response, get c.surroundings c.servers now range id = .ok response →
    ∃ serverID k index, id = some serverID ∧ c.Shown serverID k response index

/-- An answer within a valid range is on the axis. -/
theorem shown_of_answer {c : Call F} {serverID : Int} {k : Nat} {response : HistoryResponse F}
    (hvalid : isValidHistoryRange response.fromUnix.toInt response.toUnix.toInt = true)
    (h : Answer c.surroundings serverID response.fromUnix.toInt response.toUnix.toInt k
      response.points) : c.Shown serverID k response (aligned response) := by
  -- a point was a row of the archive
  have hrow : ∀ p ∈ response.points, ∃ j < k, c.Holds j serverID p.minuteUnix := by
    intro p hp
    obtain ⟨_, j, hj, t, e, hread, hrow, _⟩ := h.readAt p hp
    exact ⟨j, hj, e, (read_ok hread _ _).symm.trans hrow⟩
  have h60 : ∀ p ∈ response.points, p.minuteUnix % 60 = 0 := by
    intro p hp
    obtain ⟨j, _, payload, hpayload⟩ := hrow p hp
    exact (c.aligned_archive j).rows _ payload hpayload
  have hbounds := bounds_of_valid hvalid
  refine { answer := h, indexed := ?_, length := ?_, slots := ?_, distinct := ?_, held := ?_ }
  · rw [getAlignedHistoryIndex, hvalid]
    rfl
  · rw [length_aligned]
    omega
  · intro p hp
    obtain ⟨i, hi, hminute⟩ := exists_slot hvalid h60 h.within hp
    exact ⟨i, hi, hminute, aligned_taken hvalid h60 h.within h.ascending hp hminute⟩
  · exact h.ascending.imp Int.ne_of_lt
  · intro i hi
    by_cases htaken : ∃ p ∈ response.points,
        p.minuteUnix = response.fromUnix.toInt + 60 * i
    · obtain ⟨p, hp, hminute⟩ := htaken
      obtain ⟨j, hj, hholds⟩ := hrow p hp
      refine ⟨j, hj, fun _ => hminute ▸ hholds, fun _ => ⟨p, ?_⟩⟩
      exact aligned_taken hvalid h60 h.within h.ascending hp hminute
    · have hfree := aligned_free hvalid h60 h.within hi fun p hp heq => htaken ⟨p, hp, heq⟩
      -- the minute was not there at every page read
      have habsent : ¬ Present c.surroundings serverID (response.fromUnix.toInt + 60 * i) k := by
        rw [length_aligned] at hi
        exact fun hpresent => htaken (h.complete _ (by omega) (by omega) hpresent)
      obtain ⟨rows, hpages, _⟩ := h.decoded
      have hread : ∃ j < k, ¬ c.Holds j serverID (response.fromUnix.toInt + 60 * i) := by
        by_contra hnot
        refine habsent fun j hj => ?_
        obtain ⟨t, ht⟩ := hpages.reads j hj
        obtain ⟨payload, hpayload⟩ := of_not_not fun hno => hnot ⟨j, hj, hno⟩
        exact ⟨t, payload, ht, (read_ok ht _ _).trans hpayload⟩
      obtain ⟨j, hj, hno⟩ := hread
      refine ⟨j, hj, fun ⟨p, hp⟩ => ?_, fun hholds => absurd hholds hno⟩
      rw [hfree] at hp
      cases hp

/-- **What the server has stored is on the time axis**, for every history of the archive in which
retention ran at clock readings not later than that of the call, and every such reading from year 1
on whose milliseconds are a safe integer. -/
theorem onAxis (c : Call F) (now : Time) (hyear : Time.zero.ns ≤ now.ns)
    (hsafe : isSafeInteger now.unixMilli = true) (hc : c.NotAfter now) : c.OnAxis now where
  keys j serverID minuteUnix hholds := by
    obtain ⟨payload, hpayload⟩ := hholds
    exact (c.aligned_archive j).rows _ payload hpayload
  accepted range duration hduration := window_accepted hyear hsafe hduration
  kept range duration hduration j key hkey := by
    rw [archive_eq] at hkey
    have hcutoff := cutoffUnix_le hyear hsafe hduration
    have hexpired := Archive.expired_run (fun key hkey => absurd hkey List.not_mem_nil)
      (hc.upTo j) key hkey
    omega
  shown range id response h := by
    obtain ⟨duration, serverID, hduration, rfl, hfrom, hto, hquery⟩ := get_ok h
    obtain ⟨hin, hvalid⟩ := window_accepted hyear hsafe hduration
    obtain ⟨k, hanswer⟩ := query_ok hquery
    rw [← hfrom, ← hto] at hvalid hanswer
    exact ⟨serverID, k, aligned response, rfl, shown_of_answer hvalid hanswer⟩

/-- A report of the first minute, a flush and retention one minute later, and a request. -/
def flushed : Call Exact where
  before := [.aggregator (.accept 1 (.ofCPU (.fin 50)) (.ofUnix 10)), .flush (.ofUnix 61),
    .aggregator (.check 0), .aggregator (.enter 0), .aggregator (.check 0),
    .aggregator (.snapshot 0), .aggregator (.write 0 none false), .aggregator (.clean 0),
    .aggregator (.leave 0), .retention (.ofUnix 62) true]
  between _ := []
  fails _ := none
  ctxErr _ := none
  decodePayload payload := .ok payload
  servers id := .ok { id, name := "web", enabled := true }

theorem flushed_onAxis : (flushed.archive 0).aggregator.rows.keys = [⟨1, 0⟩] ∧
    flushed.OnAxis (.ofUnix 65) := by
  refine ⟨by decide +kernel, onAxis flushed (.ofUnix 65) (by decide) (by decide) ⟨?_, ?_⟩⟩
  · intro a ha
    simp only [flushed, List.mem_cons, List.not_mem_nil, or_false] at ha
    rcases ha with rfl | rfl | rfl | rfl | rfl | rfl | rfl | rfl | rfl | rfl
    all_goals first | trivial | exact (by decide : (Time.ofUnix 62).ns ≤ (Time.ofUnix 65).ns)
  · exact fun j a ha => absurd ha List.not_mem_nil

end Call

end Call

end TinyProbe.History
