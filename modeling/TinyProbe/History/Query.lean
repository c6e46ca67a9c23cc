import TinyProbe.History.Aggregator
import TinyProbe.Lib.Keyset
import Mathlib.Data.List.Perm.Subperm

/-!
# History queries

`Store.Query` checks its range in int64 arithmetic and then reads the rows of a server page by page,
each page behind the last minute of the one before. A page is one statement and sees one state of
the table; between two pages anything can happen to the table. `Surroundings` is what a call meets:
the table at each page read, the error of the context at each check, and what the payloads decode
to.

Every record comes from the table its page was read from, and a minute whose row is there at every
read is in the answer. The cap on the number of rows is the number of minutes in the longest range,
so reaching it means that there is no minute left.
-/

namespace TinyProbe.History

variable {F E : Type}

/-- `maxHistoryQuerySeconds`. -/
def maxHistoryQuerySeconds : Int64 := 30 * 24 * 60 * 60

/-- `maxHistoryQueryRows`. -/
def maxHistoryQueryRows : Nat := 43201

/-- `historyQueryPageRows`. -/
def historyQueryPageRows : Nat := 256

/-- The table `metric_minutes`, with the payloads as they are encoded. -/
structure MinuteTable (E : Type) where
  rows : Map Key E
  aligned : ∀ key e, AList.lookup key rows = some e → key.minuteUnix % 60 = 0

/-- How a page read can fail: the statement, the scan of a row, and the iteration. -/
inductive PageError where
  | query (cause : String)
  | scan (cause : String)
  | iterate (cause : String)

/-- The errors of `Query`. -/
inductive QueryError where
  /-- `InvalidRangeError`. -/
  | invalidRange (fromUnix toUnix : Int64)
  | page (err : PageError)
  /-- The context is done. -/
  | iterate (cause : String)
  | unmarshal (minuteUnix : Int) (cause : String)

/-- What a call of `Query` meets. -/
structure Surroundings (F E : Type) where
  /-- The table at each page read, or why the read fails. -/
  read : Nat → Except PageError (MinuteTable E)
  /-- `ctx.Err()` at each check. -/
  ctxErr : Nat → Option String
  /-- `decodePayload`. -/
  decodePayload : E → Except String (MinutePayload F)

namespace MinuteTable

/-- The row of a server and minute. -/
def row? (t : MinuteTable E) (serverID minuteUnix : Int) : Option E :=
  AList.lookup ⟨serverID, minuteUnix⟩ t.rows

/-- The rows of a server, by minute. -/
def rowsOf (t : MinuteTable E) (serverID : Int) : List (Int × E) :=
  t.rows.entries.filterMap fun e =>
    if e.1.serverID = serverID then some (e.1.minuteUnix, e.2) else none

/-- The `WHERE` clause of `queryPage` on `minute_unix`. -/
def admits (fromUnix toUnix : Int) (after : Option Int) (minuteUnix : Int) : Bool :=
  (match after with
    | some after => decide (after < minuteUnix)
    | none => decide (fromUnix ≤ minuteUnix)) && decide (minuteUnix ≤ toUnix)

/-- `queryPage`. -/
def queryPage (t : MinuteTable E) (serverID fromUnix toUnix : Int) (after : Option Int)
    (limit : Nat) : List (Int × E) :=
  Keyset.page Prod.fst (admits fromUnix toUnix after) limit (t.rowsOf serverID)

theorem mem_rowsOf {t : MinuteTable E} {serverID minuteUnix : Int} {e : E} :
    (minuteUnix, e) ∈ t.rowsOf serverID ↔ t.row? serverID minuteUnix = some e := by
  rw [row?, ← Map.mem_entries_iff, rowsOf, List.mem_filterMap]
  constructor
  · rintro ⟨⟨⟨server, minute⟩, payload⟩, hmem, hrow⟩
    split at hrow
    next hserver =>
      cases hrow
      cases hserver
      exact hmem
    next => cases hrow
  · intro hmem
    exact ⟨_, hmem, if_pos rfl⟩

theorem nodup_rowsOf (t : MinuteTable E) (serverID : Int) :
    ((t.rowsOf serverID).map Prod.fst).Nodup := by
  have hkeys : t.rows.entries.Pairwise fun a b => a.1 ≠ b.1 :=
    List.pairwise_map.mp t.rows.nodupKeys
  refine List.pairwise_map.mpr (List.pairwise_filterMap.mpr (hkeys.imp fun hne => ?_))
  intro a ha b hb heq
  split at ha
  next hserver =>
    split at hb
    next hserver' =>
      cases ha
      cases hb
      apply hne
      have : ∀ {x y : Key}, x.serverID = y.serverID → x.minuteUnix = y.minuteUnix → x = y := by
        rintro ⟨_, _⟩ ⟨_, _⟩ rfl rfl
        rfl
      exact this (hserver.trans hserver'.symm) heq
    next => cases hb
  next => cases ha

end MinuteTable

/-- The range check of `Query`. -/
def outOfRange (fromUnix toUnix : Int64) : Bool :=
  decide (toUnix < fromUnix) ||
    (decide (fromUnix ≤ Int64.maxValue - maxHistoryQuerySeconds) &&
      decide (fromUnix + maxHistoryQuerySeconds < toUnix))

/-- The loop over a page, from check `n` on. -/
def decodePage (w : Surroundings F E) (serverID : Int) :
    List (Int × E) → Nat → Except QueryError (List (MinuteRecord F))
  | [], _ => .ok []
  | (minuteUnix, encoded) :: page, n =>
    match w.ctxErr n with
    | some cause => .error (.iterate cause)
    | none =>
      match w.decodePayload encoded with
      | .error cause => .error (.unmarshal minuteUnix cause)
      | .ok payload =>
        match w.ctxErr (n + 1) with
        | some cause => .error (.iterate cause)
        | none => (decodePage w serverID page (n + 2)).map ({ serverID, minuteUnix, payload } :: ·)

/-- A record is what its row decodes to. -/
def Decodes (w : Surroundings F E) (serverID : Int) (row : Int × E) (r : MinuteRecord F) : Prop :=
  r.serverID = serverID ∧ r.minuteUnix = row.1 ∧ w.decodePayload row.2 = .ok r.payload

/-- What a decoded page holds: each row once, in its order, and every check has passed. -/
theorem decodePage_ok {w : Surroundings F E} {serverID : Int} {page : List (Int × E)} {n : Nat}
    {decoded : List (MinuteRecord F)} (h : decodePage w serverID page n = .ok decoded) :
    List.Forall₂ (Decodes w serverID) page decoded ∧
      ∀ i, n ≤ i → i < n + 2 * page.length → w.ctxErr i = none := by
  induction page generalizing n decoded with
  | nil =>
    cases h
    refine ⟨.nil, ?_⟩
    intro i hi hlt
    rw [List.length_nil] at hlt
    omega
  | cons row page ih =>
    obtain ⟨minuteUnix, encoded⟩ := row
    rw [decodePage] at h
    split at h
    next => cases h
    next hfirst =>
      split at h
      next => cases h
      next payload hpayload =>
        split at h
        next => cases h
        next hsecond =>
          cases hrest : decodePage w serverID page (n + 2) with
          | error err =>
            rw [hrest] at h
            cases h
          | ok rest =>
            rw [hrest] at h
            cases h
            obtain ⟨hrows, hchecks⟩ := ih hrest
            refine ⟨.cons ⟨rfl, rfl, hpayload⟩ hrows, ?_⟩
            intro i hi hlt
            rw [List.length_cons] at hlt
            by_cases h0 : i = n
            · rw [h0, hfirst]
            · by_cases h1 : i = n + 1
              · rw [h1, hsecond]
              · exact hchecks i (by omega) (by omega)

/-- A page fails to decode at a row that does not decode, or because the context is done. -/
theorem decodePage_error {w : Surroundings F E} {serverID : Int} {page : List (Int × E)} {n : Nat}
    {err : QueryError} (h : decodePage w serverID page n = .error err) :
    (∃ i cause, w.ctxErr i = some cause ∧ err = .iterate cause) ∨
      ∃ row ∈ page, ∃ cause, w.decodePayload row.2 = .error cause ∧
        err = .unmarshal row.1 cause := by
  induction page generalizing n with
  | nil => cases h
  | cons row page ih =>
    obtain ⟨minuteUnix, encoded⟩ := row
    rw [decodePage] at h
    split at h
    next cause hcause =>
      cases h
      exact Or.inl ⟨n, cause, hcause, rfl⟩
    next =>
      split at h
      next cause hcause =>
        cases h
        exact Or.inr ⟨_, List.mem_cons_self, cause, hcause, rfl⟩
      next =>
        split at h
        next cause hcause =>
          cases h
          exact Or.inl ⟨n + 1, cause, hcause, rfl⟩
        next =>
          cases hrest : decodePage w serverID page (n + 2) with
          | ok rest =>
            rw [hrest] at h
            cases h
          | error err' =>
            rw [hrest] at h
            cases h
            rcases ih hrest with hctx | ⟨row, hrow, hdecode⟩
            · exact Or.inl hctx
            · exact Or.inr ⟨row, List.mem_cons_of_mem _ hrow, hdecode⟩

/-- The loop over the pages: `k` pages have been read and `n` checks made. -/
def readPages (w : Surroundings F E) (serverID fromUnix toUnix : Int)
    (records : List (MinuteRecord F)) (after : Option Int) (k n : Nat) :
    Except QueryError (List (MinuteRecord F)) :=
  if records.length < maxHistoryQueryRows then
    let pageLimit := min historyQueryPageRows (maxHistoryQueryRows - records.length)
    match w.read k with
    | .error err => .error (.page err)
    | .ok table =>
      let page := table.queryPage serverID fromUnix toUnix after pageLimit
      match _hdecoded : decodePage w serverID page n with
      | .error err => .error err
      | .ok decoded =>
        match w.ctxErr (n + 2 * page.length) with
        | some cause => .error (.iterate cause)
        | none =>
          if page.length < pageLimit ∨ (records ++ decoded).length = maxHistoryQueryRows then
            .ok (records ++ decoded)
          else
            readPages w serverID fromUnix toUnix (records ++ decoded)
              (page.getLast?.map Prod.fst) (k + 1) (n + 2 * page.length + 1)
  else .ok records
termination_by maxHistoryQueryRows - records.length
decreasing_by
  rename_i hroom hfull
  have hlength := (decodePage_ok _hdecoded).1.length_eq
  have hlimit : pageLimit = min 256 (maxHistoryQueryRows - records.length) := rfl
  rw [List.length_append] at hfull ⊢
  omega

/-- `Store.Query`. -/
def query (w : Surroundings F E) (serverID : Int) (fromUnix toUnix : Int64) :
    Except QueryError (List (MinuteRecord F)) :=
  if outOfRange fromUnix toUnix then .error (.invalidRange fromUnix toUnix)
  else readPages w serverID fromUnix.toInt toUnix.toInt [] none 0 0

/-! ## The range check -/

/-- **The range check is exact**: it has no overflow. -/
theorem outOfRange_iff {fromUnix toUnix : Int64} :
    outOfRange fromUnix toUnix = true ↔
      toUnix.toInt < fromUnix.toInt ∨ 30 * 24 * 60 * 60 < toUnix.toInt - fromUnix.toInt := by
  have hmax : maxHistoryQuerySeconds.toInt = 30 * 24 * 60 * 60 := by decide
  have hlast : (Int64.maxValue - maxHistoryQuerySeconds).toInt = 2 ^ 63 - 1 - 30 * 24 * 60 * 60 := by
    decide
  have hfrom := Int64.le_toInt fromUnix
  have hto := Int64.toInt_lt toUnix
  simp only [outOfRange, Bool.or_eq_true, Bool.and_eq_true, decide_eq_true_eq,
    Int64.lt_iff_toInt_lt, Int64.le_iff_toInt_le, hlast, Int64.toInt_add, hmax]
  by_cases hroom : fromUnix.toInt ≤ 2 ^ 63 - 1 - 30 * 24 * 60 * 60
  · -- the sum fits
    rw [Int.bmod_eq_of_le (by omega) (by omega)]
    omega
  · omega

/-! ## The pages -/

/-- A minute of the server is in the table at each of the first `k` page reads. -/
def Present (w : Surroundings F E) (serverID minuteUnix : Int) (k : Nat) : Prop :=
  ∀ j < k, ∃ t e, w.read j = .ok t ∧ t.row? serverID minuteUnix = some e

/-- The rows of the first `k` pages, each page behind the last row of those before it. -/
inductive Pages (w : Surroundings F E) (serverID fromUnix toUnix : Int) :
    Nat → List (Int × E) → Prop
  | nil : Pages w serverID fromUnix toUnix 0 []
  | page {k : Nat} {rows : List (Int × E)} {table : MinuteTable E} (limit : Nat) :
      Pages w serverID fromUnix toUnix k rows → w.read k = .ok table →
      Pages w serverID fromUnix toUnix (k + 1)
        (rows ++ table.queryPage serverID fromUnix toUnix (rows.getLast?.map Prod.fst) limit)

section Pages

variable {w : Surroundings F E} {serverID fromUnix toUnix : Int} {k limit : Nat}
  {rows : List (Int × E)} {table : MinuteTable E} {m : Int}

theorem Present.mono {j : Nat} (h : Present w serverID m k) (hjk : j ≤ k) :
    Present w serverID m j := fun i hi => h i (Nat.lt_of_lt_of_le hi hjk)

/-- The row of the largest minute is the last one. -/
theorem le_getLast {last row : Int × E} (hsorted : rows.Pairwise fun a b => a.1 < b.1)
    (hlast : rows.getLast? = some last) (hrow : row ∈ rows) : row.1 ≤ last.1 := by
  obtain ⟨init, rfl⟩ := List.getLast?_eq_some_iff.mp hlast
  rcases List.mem_append.mp hrow with hinit | hend
  · exact Int.le_of_lt ((List.pairwise_append.mp hsorted).2.2 _ hinit _ List.mem_cons_self)
  · rw [List.mem_singleton.mp hend]

/-- A row of a page is a row of the table, in the range and behind `after`. -/
theorem mem_queryPage {after : Option Int} {row : Int × E}
    (h : row ∈ table.queryPage serverID fromUnix toUnix after limit) :
    table.row? serverID row.1 = some row.2 ∧ row.1 ≤ toUnix ∧
      (after = none → fromUnix ≤ row.1) ∧ ∀ a, after = some a → a < row.1 := by
  obtain ⟨hmem, hadmits⟩ := Keyset.mem_of_mem_page h
  refine ⟨MinuteTable.mem_rowsOf.mp hmem, ?_⟩
  cases after with
  | none =>
    rw [MinuteTable.admits, Bool.and_eq_true, decide_eq_true_eq, decide_eq_true_eq] at hadmits
    refine ⟨hadmits.2, (fun _ => hadmits.1), ?_⟩
    intro a ha
    cases ha
  | some after =>
    rw [MinuteTable.admits, Bool.and_eq_true, decide_eq_true_eq, decide_eq_true_eq] at hadmits
    refine ⟨hadmits.2, (fun h => by cases h), ?_⟩
    intro a ha
    cases ha
    exact hadmits.1

theorem Pages.within (h : Pages w serverID fromUnix toUnix k rows) :
    ∀ row ∈ rows, fromUnix ≤ row.1 ∧ row.1 ≤ toUnix := by
  induction h with
  | nil => exact fun row hrow => absurd hrow List.not_mem_nil
  | @page k rows table limit _ _ ih =>
    intro row hrow
    rcases List.mem_append.mp hrow with hold | hnew
    · exact ih row hold
    · obtain ⟨_, hto, hfirst, hafter⟩ := mem_queryPage hnew
      refine ⟨?_, hto⟩
      cases hlast : rows.getLast? with
      | none => exact hfirst (by rw [hlast, Option.map_none])
      | some last =>
        have hbehind := hafter last.1 (by rw [hlast, Option.map_some])
        have hlower := (ih last (List.mem_of_getLast? hlast)).1
        omega

/-- **No minute is read twice**: the pages are one strictly ascending list. -/
theorem Pages.ascending (h : Pages w serverID fromUnix toUnix k rows) :
    rows.Pairwise fun a b => a.1 < b.1 := by
  induction h with
  | nil => exact List.Pairwise.nil
  | @page k rows table limit _ _ ih =>
    refine List.pairwise_append.mpr ⟨ih, Keyset.pairwise_page (table.nodup_rowsOf serverID), ?_⟩
    intro a ha b hb
    cases hlast : rows.getLast? with
    | none =>
      rw [List.getLast?_eq_none_iff.mp hlast] at ha
      cases ha
    | some last =>
      have hbehind := (mem_queryPage hb).2.2.2 last.1 (by rw [hlast, Option.map_some])
      exact Int.lt_of_le_of_lt (le_getLast ih hlast ha) hbehind

/-- **A row read was in the table when its page was read.** -/
theorem Pages.readAt (h : Pages w serverID fromUnix toUnix k rows) :
    ∀ row ∈ rows, ∃ j < k, ∃ t, w.read j = .ok t ∧ t.row? serverID row.1 = some row.2 := by
  induction h with
  | nil => exact fun row hrow => absurd hrow List.not_mem_nil
  | page limit _ hread ih =>
    intro row hrow
    rcases List.mem_append.mp hrow with hold | hnew
    · obtain ⟨j, hj, hrest⟩ := ih row hold
      exact ⟨j, Nat.lt_succ_of_lt hj, hrest⟩
    · exact ⟨_, Nat.lt_succ_self _, _, hread, (mem_queryPage hnew).1⟩

theorem Pages.reads (h : Pages w serverID fromUnix toUnix k rows) :
    ∀ j < k, ∃ t, w.read j = .ok t := by
  induction h with
  | nil => exact fun j hj => absurd hj (Nat.not_lt_zero j)
  | page limit _ hread ih =>
    intro j hj
    rcases Nat.lt_succ_iff_lt_or_eq.mp hj with hlt | rfl
    · exact ih j hlt
    · exact ⟨_, hread⟩

/-- A minute behind all rows so far that is in the table is on the next page, or behind that page,
and then the page is full. -/
theorem mem_queryPage_or {e : E} (hfrom : fromUnix ≤ m) (hto : m ≤ toUnix)
    (hbehind : ∀ row ∈ rows, row.1 < m) (hrow : table.row? serverID m = some e) :
    (m, e) ∈ table.queryPage serverID fromUnix toUnix (rows.getLast?.map Prod.fst) limit ∨
      (table.queryPage serverID fromUnix toUnix (rows.getLast?.map Prod.fst) limit).length = limit ∧
        ∀ row ∈ table.queryPage serverID fromUnix toUnix (rows.getLast?.map Prod.fst) limit,
          row.1 < m := by
  apply Keyset.mem_page_or (table.nodup_rowsOf serverID) (MinuteTable.mem_rowsOf.mpr hrow)
  cases hlast : rows.getLast? with
  | none =>
    rw [Option.map_none, MinuteTable.admits, Bool.and_eq_true]
    exact ⟨decide_eq_true hfrom, decide_eq_true hto⟩
  | some last =>
    rw [Option.map_some, MinuteTable.admits, Bool.and_eq_true]
    exact ⟨decide_eq_true (hbehind last (List.mem_of_getLast? hlast)), decide_eq_true hto⟩

/-- **No minute is skipped**: one that is there at every read has been read, or all rows read are
ahead of it. -/
theorem Pages.complete (h : Pages w serverID fromUnix toUnix k rows) (hfrom : fromUnix ≤ m)
    (hto : m ≤ toUnix) (hpresent : Present w serverID m k) :
    (∃ e, (m, e) ∈ rows) ∨ ∀ row ∈ rows, row.1 < m := by
  induction h with
  | nil => exact Or.inr fun row hrow => absurd hrow List.not_mem_nil
  | @page k rows table limit _ hread ih =>
    rcases ih (hpresent.mono (Nat.le_succ k)) with ⟨e, he⟩ | hbehind
    · exact Or.inl ⟨e, List.mem_append_left _ he⟩
    · obtain ⟨t, e, hread', hrow⟩ := hpresent k (Nat.lt_succ_self k)
      cases hread.symm.trans hread'
      rcases mem_queryPage_or hfrom hto hbehind hrow with hmem | ⟨_, hpage⟩
      · exact Or.inl ⟨e, List.mem_append_right _ hmem⟩
      · refine Or.inr fun row hrow => ?_
        rcases List.mem_append.mp hrow with hold | hnew
        · exact hbehind row hold
        · exact hpage row hnew

/-- **As many rows as the longest range has minutes are all its minutes.** -/
theorem Pages.mem_of_full (h : Pages w serverID fromUnix toUnix k rows)
    (hrange : toUnix - fromUnix ≤ 30 * 24 * 60 * 60) (hfull : maxHistoryQueryRows ≤ rows.length)
    (hfrom : fromUnix ≤ m) (hto : m ≤ toUnix) (haligned : m % 60 = 0) : ∃ e, (m, e) ∈ rows := by
  -- the minutes of the range, from the first one on
  let minutes := (List.range maxHistoryQueryRows).map fun i : Nat =>
    fromUnix + (-fromUnix) % 60 + 60 * (i : Int)
  have hmem : ∀ x, fromUnix ≤ x → x ≤ toUnix → x % 60 = 0 → x ∈ minutes := by
    intro x hx hx' hx60
    refine List.mem_map.mpr ⟨((x - (fromUnix + (-fromUnix) % 60)) / 60).toNat, ?_, ?_⟩
    · rw [List.mem_range]
      unfold maxHistoryQueryRows
      omega
    · omega
  have hsub : rows.map Prod.fst ⊆ minutes := by
    intro x hx
    obtain ⟨row, hrow, rfl⟩ := List.mem_map.mp hx
    obtain ⟨_, _, t, _, hrow?⟩ := h.readAt row hrow
    exact hmem _ (h.within row hrow).1 (h.within row hrow).2 (t.aligned _ _ hrow?)
  have hnodup : (rows.map Prod.fst).Nodup :=
    List.pairwise_map.mpr (h.ascending.imp Int.ne_of_lt)
  have hperm : (rows.map Prod.fst).Perm minutes := by
    apply (List.Nodup.subperm hnodup hsub).perm_of_length_le
    rw [List.length_map, List.length_map, List.length_range]
    exact hfull
  obtain ⟨⟨_, e⟩, hrow, rfl⟩ := List.mem_map.mp (hperm.mem_iff.mpr (hmem m hfrom hto haligned))
  exact ⟨e, hrow⟩

end Pages

/-! ## The answer -/

/-- What a successful call answers, after `k` page reads. -/
structure Answer (w : Surroundings F E) (serverID fromUnix toUnix : Int) (k : Nat)
    (records : List (MinuteRecord F)) : Prop where
  ascending : records.Pairwise fun a b => a.minuteUnix < b.minuteUnix
  within : ∀ r ∈ records, fromUnix ≤ r.minuteUnix ∧ r.minuteUnix ≤ toUnix
  /-- Every record is a row of the server that was there when its page was read. -/
  readAt : ∀ r ∈ records, r.serverID = serverID ∧ ∃ j < k, ∃ t e, w.read j = .ok t ∧
    t.row? serverID r.minuteUnix = some e ∧ w.decodePayload e = .ok r.payload
  /-- Every minute that was there all along is in the answer. -/
  complete : ∀ m, fromUnix ≤ m → m ≤ toUnix → Present w serverID m k →
    ∃ r ∈ records, r.minuteUnix = m
  /-- Every row that was read has been decoded. -/
  decoded : ∃ rows, Pages w serverID fromUnix toUnix k rows ∧
    List.Forall₂ (Decodes w serverID) rows records
  /-- No check found the context done. -/
  checks : ∀ i < 2 * records.length + k, w.ctxErr i = none

/-- Why a call in range fails. -/
def Failure (w : Surroundings F E) (serverID fromUnix toUnix : Int) : QueryError → Prop
  | .invalidRange _ _ => False
  | .page err => ∃ j, w.read j = .error err
  | .iterate cause => ∃ i, w.ctxErr i = some cause
  | .unmarshal minuteUnix cause => fromUnix ≤ minuteUnix ∧ minuteUnix ≤ toUnix ∧
      ∃ j t e, w.read j = .ok t ∧ t.row? serverID minuteUnix = some e ∧
        w.decodePayload e = .error cause

/-- The loop comes to read page `k`: `records` are the rows of the pages so far. -/
structure Collected (w : Surroundings F E) (serverID fromUnix toUnix : Int) (k n : Nat)
    (rows : List (Int × E)) (records : List (MinuteRecord F)) : Prop where
  pages : Pages w serverID fromUnix toUnix k rows
  decoded : List.Forall₂ (Decodes w serverID) rows records
  checks : ∀ i < n, w.ctxErr i = none
  count : n = 2 * records.length + k

section Loop

variable {w : Surroundings F E} {serverID fromUnix toUnix : Int} {k n limit : Nat}
  {rows : List (Int × E)} {records decoded : List (MinuteRecord F)} {table : MinuteTable E}

theorem collected_nil : Collected w serverID fromUnix toUnix 0 0 [] [] where
  pages := Pages.nil
  decoded := List.Forall₂.nil
  checks i hi := absurd hi (Nat.not_lt_zero i)
  count := rfl

/-- One more page. -/
theorem Collected.page (h : Collected w serverID fromUnix toUnix k n rows records)
    (hread : w.read k = .ok table)
    (hdecoded : decodePage w serverID
      (table.queryPage serverID fromUnix toUnix (rows.getLast?.map Prod.fst) limit) n = .ok decoded)
    (hcheck : w.ctxErr (n + 2 *
      (table.queryPage serverID fromUnix toUnix (rows.getLast?.map Prod.fst) limit).length) = none) :
    Collected w serverID fromUnix toUnix (k + 1) (n + 2 *
        (table.queryPage serverID fromUnix toUnix (rows.getLast?.map Prod.fst) limit).length + 1)
      (rows ++ table.queryPage serverID fromUnix toUnix (rows.getLast?.map Prod.fst) limit)
      (records ++ decoded) := by
  obtain ⟨hrows, hchecks⟩ := decodePage_ok hdecoded
  refine ⟨h.pages.page limit hread, List.rel_append h.decoded hrows, ?_, ?_⟩
  · intro i hi
    by_cases hold : i < n
    · exact h.checks i hold
    · by_cases hlast : i = n + 2 * (table.queryPage serverID fromUnix toUnix
          (rows.getLast?.map Prod.fst) limit).length
      · rw [hlast, hcheck]
      · exact hchecks i (by omega) (by omega)
  · have hlength := hrows.length_eq
    have hcount := h.count
    rw [List.length_append]
    omega

theorem map_minuteUnix (h : List.Forall₂ (Decodes w serverID) rows records) :
    records.map MinuteRecord.minuteUnix = rows.map Prod.fst := by
  induction h with
  | nil => rfl
  | cons hrow _ ih => rw [List.map_cons, List.map_cons, hrow.2.1, ih]

theorem Collected.record_of_row (h : Collected w serverID fromUnix toUnix k n rows records)
    {row : Int × E} (hrow : row ∈ rows) : ∃ r ∈ records, r.minuteUnix = row.1 := by
  apply List.mem_map.mp
  rw [map_minuteUnix h.decoded]
  exact List.mem_map_of_mem hrow

theorem Collected.row_of_record (h : Collected w serverID fromUnix toUnix k n rows records)
    {r : MinuteRecord F} (hr : r ∈ records) : ∃ row ∈ rows, Decodes w serverID row r := by
  obtain ⟨i, hi, rfl⟩ := List.getElem_of_mem hr
  have hi' : i < rows.length := h.decoded.length_eq ▸ hi
  exact ⟨rows[i], List.getElem_mem hi', h.decoded.get hi' hi⟩

/-- The loop is done when no minute is left. -/
theorem Collected.answer (h : Collected w serverID fromUnix toUnix k n rows records)
    (hdone : ∀ m, fromUnix ≤ m → m ≤ toUnix → Present w serverID m k → ∃ e, (m, e) ∈ rows) :
    Answer w serverID fromUnix toUnix k records where
  ascending := by
    have hsorted := List.pairwise_map.mpr h.pages.ascending
    rw [← map_minuteUnix h.decoded] at hsorted
    exact List.pairwise_map.mp hsorted
  within r hr := by
    obtain ⟨row, hrow, _, hminute, _⟩ := h.row_of_record hr
    rw [hminute]
    exact h.pages.within row hrow
  readAt r hr := by
    obtain ⟨row, hrow, hserver, hminute, hpayload⟩ := h.row_of_record hr
    obtain ⟨j, hj, t, hread, hrow?⟩ := h.pages.readAt row hrow
    exact ⟨hserver, j, hj, t, row.2, hread, hminute ▸ hrow?, hpayload⟩
  complete m hfrom hto hpresent := by
    obtain ⟨e, he⟩ := hdone m hfrom hto hpresent
    exact h.record_of_row he
  decoded := ⟨rows, h.pages, h.decoded⟩
  checks i hi := h.checks i (h.count ▸ hi)

/-- A page that is not full is the last one. -/
theorem Collected.done_of_short (h : Collected w serverID fromUnix toUnix k n rows records)
    (hread : w.read k = .ok table)
    (hshort : (table.queryPage serverID fromUnix toUnix (rows.getLast?.map Prod.fst) limit).length <
      limit) (m : Int) (hfrom : fromUnix ≤ m) (hto : m ≤ toUnix)
    (hpresent : Present w serverID m (k + 1)) :
    ∃ e, (m, e) ∈
      rows ++ table.queryPage serverID fromUnix toUnix (rows.getLast?.map Prod.fst) limit := by
  rcases h.pages.complete hfrom hto (hpresent.mono (Nat.le_succ k)) with ⟨e, he⟩ | hbehind
  · exact ⟨e, List.mem_append_left _ he⟩
  · obtain ⟨t, e, hread', hrow⟩ := hpresent k (Nat.lt_succ_self k)
    cases hread.symm.trans hread'
    rcases mem_queryPage_or hfrom hto hbehind hrow with hmem | ⟨hfull, _⟩
    · exact ⟨e, List.mem_append_right _ hmem⟩
    · exact absurd hfull (Nat.ne_of_lt hshort)

/-- As many records as the cap leave no minute. -/
theorem Collected.done_of_full (h : Collected w serverID fromUnix toUnix k n rows records)
    (hrange : toUnix - fromUnix ≤ 30 * 24 * 60 * 60)
    (hfull : maxHistoryQueryRows ≤ records.length) (hpages : 0 < k) (m : Int)
    (hfrom : fromUnix ≤ m) (hto : m ≤ toUnix) (hpresent : Present w serverID m k) :
    ∃ e, (m, e) ∈ rows := by
  obtain ⟨t, e, _, hrow⟩ := hpresent 0 hpages
  refine h.pages.mem_of_full hrange ?_ hfrom hto (t.aligned _ e hrow)
  rw [h.decoded.length_eq]
  exact hfull

/-- What the loop returns is an answer. -/
theorem readPages_ok {after : Option Int} {result : List (MinuteRecord F)}
    (hrange : toUnix - fromUnix ≤ 30 * 24 * 60 * 60)
    (hcollected : Collected w serverID fromUnix toUnix k n rows records)
    (hafter : after = rows.getLast?.map Prod.fst)
    (hroom : records.length < maxHistoryQueryRows)
    (h : readPages w serverID fromUnix toUnix records after k n = .ok result) :
    ∃ k, Answer w serverID fromUnix toUnix k result := by
  fun_induction readPages w serverID fromUnix toUnix records after k n generalizing rows with
  | case1 => cases h
  | case2 => cases h
  | case3 => cases h
  | case4 records after k n hlt pageLimit table hread page decoded hdecoded hcheck =>
    rename_i hdone
    cases h
    subst hafter
    refine ⟨k + 1, (hcollected.page hread hdecoded hcheck).answer ?_⟩
    rcases hdone with hshort | hfull
    · exact hcollected.done_of_short hread hshort
    · exact (hcollected.page hread hdecoded hcheck).done_of_full hrange (Nat.le_of_eq hfull.symm)
        (Nat.succ_pos k)
  | case5 records after k n hlt pageLimit table hread page decoded hdecoded hcheck hmore =>
    rename_i ih
    subst hafter
    have hlength := (decodePage_ok hdecoded).1.length_eq
    have hlimit : page.length ≤ pageLimit := Keyset.length_page_le
    have hbound : pageLimit = min 256 (maxHistoryQueryRows - records.length) := rfl
    -- the page is full
    have hne : page ≠ [] := by
      intro hnil
      rw [hnil, List.length_nil] at hmore
      omega
    refine ih (hcollected.page hread hdecoded hcheck) ?_ ?_ h
    · rw [List.getLast?_append_of_ne_nil _ hne]
    · rw [List.length_append] at hmore ⊢
      omega
  | case6 records after k n hfull => exact absurd hroom hfull

/-- The loop fails for a reason. -/
theorem readPages_error {after : Option Int} {err : QueryError}
    (hpages : Pages w serverID fromUnix toUnix k rows)
    (hafter : after = rows.getLast?.map Prod.fst)
    (h : readPages w serverID fromUnix toUnix records after k n = .error err) :
    Failure w serverID fromUnix toUnix err := by
  fun_induction readPages w serverID fromUnix toUnix records after k n generalizing rows with
  | case1 records after k n hlt cause hread =>
    cases h
    exact ⟨k, hread⟩
  | case2 records after k n hlt pageLimit table hread page cause =>
    rename_i hdecoded
    cases h
    subst hafter
    rcases decodePage_error hdecoded with ⟨i, cause, hcause, rfl⟩ | ⟨row, hrow, cause, hcause, rfl⟩
    · exact ⟨i, hcause⟩
    · have hwithin := (hpages.page pageLimit hread).within row (List.mem_append_right _ hrow)
      exact ⟨hwithin.1, hwithin.2, k, table, row.2, hread, (mem_queryPage hrow).1, hcause⟩
  | case3 records after k n hlt pageLimit table hread page decoded hdecoded cause =>
    rename_i hcause
    cases h
    exact ⟨_, hcause⟩
  | case4 => cases h
  | case5 records after k n hlt pageLimit table hread page decoded hdecoded hcheck hmore =>
    rename_i ih
    subst hafter
    have hbound : pageLimit = min 256 (maxHistoryQueryRows - records.length) := rfl
    have hne : page ≠ [] := by
      intro hnil
      rw [hnil, List.length_nil] at hmore
      omega
    refine ih (hpages.page pageLimit hread) ?_ h
    rw [List.getLast?_append_of_ne_nil _ hne]
  | case6 => cases h

end Loop

/-- A successful call answers. -/
theorem query_ok {w : Surroundings F E} {serverID : Int} {fromUnix toUnix : Int64}
    {records : List (MinuteRecord F)} (h : query w serverID fromUnix toUnix = .ok records) :
    ∃ k, Answer w serverID fromUnix.toInt toUnix.toInt k records := by
  unfold query at h
  split at h
  next => cases h
  next hin =>
    have hrange := mt outOfRange_iff.mpr hin
    exact readPages_ok (by omega) collected_nil rfl (Nat.zero_lt_succ _) h

/-- A call in range fails for a reason. -/
theorem query_error {w : Surroundings F E} {serverID : Int} {fromUnix toUnix : Int64}
    {err : QueryError} (hin : ¬ outOfRange fromUnix toUnix = true)
    (h : query w serverID fromUnix toUnix = .error err) :
    Failure w serverID fromUnix.toInt toUnix.toInt err := by
  rw [query, if_neg hin] at h
  exact readPages_error Pages.nil rfl h

/-- **Query is exact.** A range is refused exactly when it runs backwards or is longer than thirty
days as integers, for all int64 bounds. Any other call ends: with an `Answer`, whatever happens to
the table between two page reads, or with the error of a page read, of the context or of a payload,
and then with no records. -/
theorem query_exact (w : Surroundings F E) (serverID : Int) (fromUnix toUnix : Int64) :
    (query w serverID fromUnix toUnix = .error (.invalidRange fromUnix toUnix) ↔
      toUnix.toInt < fromUnix.toInt ∨ 30 * 24 * 60 * 60 < toUnix.toInt - fromUnix.toInt) ∧
    (∀ records, query w serverID fromUnix toUnix = .ok records →
      ∃ k, Answer w serverID fromUnix.toInt toUnix.toInt k records) ∧
    ∀ err, query w serverID fromUnix toUnix = .error err →
      err = .invalidRange fromUnix toUnix ∨
        Failure w serverID fromUnix.toInt toUnix.toInt err := by
  by_cases hout : outOfRange fromUnix toUnix = true
  · have hrefused : query w serverID fromUnix toUnix = .error (.invalidRange fromUnix toUnix) :=
      if_pos hout
    refine ⟨⟨fun _ => outOfRange_iff.mp hout, fun _ => hrefused⟩, fun records h => query_ok h, ?_⟩
    intro err h
    cases hrefused.symm.trans h
    exact Or.inl rfl
  · refine ⟨⟨fun h => (query_error hout h).elim, fun h => absurd (outOfRange_iff.mpr h) hout⟩,
      fun records h => query_ok h, fun err h => Or.inr (query_error hout h)⟩

end TinyProbe.History
