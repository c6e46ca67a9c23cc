import TinyProbe.Base.Text
import Mathlib.Data.List.Induction
import Mathlib.Data.List.TakeWhile
import Mathlib.Data.Nat.Bitwise
import Mathlib.Data.Nat.Digits.Defs

/-!
# The default route

`defaultRouteInterface` reads the kernel's routing table line by line and keeps the best route so
far; the empty text stands for none. A table is a text here, which `bufio.Scanner` cuts into lines
until one does not fit its buffer.
-/

namespace TinyProbe.Agent

/-! ## Lines, fields and numbers -/

/-- The lines of a text, as `bufio.ScanLines` cuts them: what follows the last line feed is a line
if there is something. -/
def splitLines : List Char → List (List Char)
  | [] => []
  | c :: cs =>
    if c = '\n' then [] :: splitLines cs
    else
      match splitLines cs with
      | [] => [[c]]
      | line :: lines => (c :: line) :: lines

/-- `dropCR`. -/
def dropCR (line : List Char) : List Char :=
  if line.getLast? = some '\r' then line.dropLast else line

/-- `bufio.MaxScanTokenSize`. -/
def maxScanTokenSize : Nat := 64 * 1024

/-- The line and a line feed fit the buffer of the scanner. -/
def Fits (line : List Char) : Prop := (String.ofList line).utf8ByteSize < maxScanTokenSize

instance : DecidablePred Fits := fun _ => inferInstanceAs (Decidable (_ < _))

/-- What `Scanner.Scan` yields of a text, and if `Scanner.Err` reports `ErrTooLong` after it. -/
def scan (text : List Char) : List (List Char) × Bool :=
  (((splitLines text).takeWhile fun line => decide (Fits line)).map dropCR,
    (splitLines text).any fun line => !decide (Fits line))

/-- `strings.Fields`. -/
def fields (line : List Char) : List (List Char) :=
  (line.splitOnP isSpace).filter (· != [])

/-- The value of a digit, in any base up to 36. -/
def digit? (c : Char) : Option Nat :=
  if '0' ≤ c ∧ c ≤ '9' then some (c.toNat - '0'.toNat)
  else if 'a' ≤ c ∧ c ≤ 'z' then some (c.toNat - 'a'.toNat + 10)
  else if 'A' ≤ c ∧ c ≤ 'Z' then some (c.toNat - 'A'.toNat + 10)
  else none

/-- The loop of `strconv.ParseUint`; `n` is the value so far. -/
def parseDigits (base : Nat) : Nat → List Char → Option Nat
  | n, [] => some n
  | n, c :: cs =>
    match digit? c with
    | none => none
    | some d =>
      if base ≤ d ∨ 2 ^ 64 ≤ n * base + d then none else parseDigits base (n * base + d) cs

/-- `strconv.ParseUint(s, base, 64)`; an error is `none`. -/
def parseUint (base : Nat) (s : List Char) : Option Nat :=
  if s = [] then none else parseDigits base 0 s

/-! ## The table -/

def routeFlagUp : Nat := 0x1

def routeFlagReject : Nat := 0x200

/-- `"00000000"`. -/
def zeros : List Char := List.replicate 8 '0'

/-- The interface and the metric of a line that the loop does not skip. -/
def defaultRoute? (line : List Char) : Option (List Char × Nat) :=
  match fields line with
  | interface :: destination :: _ :: flags :: _ :: _ :: metric :: mask :: _ =>
    if destination ≠ zeros ∨ mask ≠ zeros then none
    else
      match parseUint 16 flags with
      | none => none
      | some flags =>
        if flags &&& routeFlagUp = 0 ∨ flags &&& routeFlagReject ≠ 0 then none
        else (parseUint 10 metric).map fun metric => (interface, metric)
  | _ => none

/-- The body of the loop, over `selectedInterface` and `selectedMetric`. -/
def selectRoute (selected : List Char × Nat) (line : List Char) : List Char × Nat :=
  match defaultRoute? line with
  | none => selected
  | some (interface, metric) =>
    if selected.1 = [] ∨ metric < selected.2 then (interface, metric) else selected

def defaultRouteInterface (text : List Char) : Except String (List Char) :=
  match scan text with
  | ([], tooLong) =>
    if tooLong then .error "read route header: bufio.Scanner: token too long"
    else .error "route table is empty"
  | (_ :: lines, tooLong) =>
    let selected := lines.foldl selectRoute ([], 0)
    if tooLong then .error "read route table: bufio.Scanner: token too long"
    else if selected.1 = [] then .error "valid default route not found"
    else .ok selected.1

/-! ## Numbers -/

/-- A text is a numeral of a number below 2^64: its letters are digits, the first counts most. -/
structure Numeral (base : Nat) (s : List Char) (n : Nat) : Prop where
  nonempty : s ≠ []
  lt : n < 2 ^ 64
  digits : ∃ ds, List.Forall₂ (fun c d => digit? c = some d ∧ d < base) s ds ∧
    n = Nat.ofDigits base ds.reverse

section Numbers

variable {base n m : Nat} {s : List Char}

theorem ofDigits_reverse (base : Nat) (ds : List Nat) :
    Nat.ofDigits base ds.reverse = ds.foldl (fun n d => n * base + d) 0 := by
  rw [Nat.ofDigits_eq_foldr, List.foldr_reverse]
  congr 1
  funext n d
  rw [Nat.mul_comm, Nat.add_comm]
  rfl

theorem le_foldl (hbase : 0 < base) (ds : List Nat) (n : Nat) :
    n ≤ ds.foldl (fun n d => n * base + d) n := by
  induction ds generalizing n with
  | nil => exact Nat.le_refl n
  | cons d ds ih =>
    calc n ≤ n * base := Nat.le_mul_of_pos_right n hbase
      _ ≤ n * base + d := Nat.le_add_right _ d
      _ ≤ _ := ih (n * base + d)

/-- **The loop of `ParseUint`**, by induction on the text that is left. -/
theorem parseDigits_iff (hn : n < 2 ^ 64) : parseDigits base n s = some m ↔ m < 2 ^ 64 ∧
    ∃ ds, List.Forall₂ (fun c d => digit? c = some d ∧ d < base) s ds ∧
      m = ds.foldl (fun n d => n * base + d) n := by
  induction s generalizing n with
  | nil =>
    rw [parseDigits]
    constructor
    · rintro ⟨⟩
      exact ⟨hn, [], .nil, rfl⟩
    · rintro ⟨_, ds, hds, rfl⟩
      cases hds
      rfl
  | cons c cs ih =>
    rw [parseDigits]
    constructor
    · intro h
      split at h
      next => cases h
      next d hd =>
        split at h
        next => cases h
        next hguard =>
          obtain ⟨hbase, hlt⟩ := not_or.mp hguard
          obtain ⟨hm, ds, hds, heq⟩ := (ih (Nat.lt_of_not_le hlt)).mp h
          exact ⟨hm, d :: ds, .cons ⟨hd, Nat.lt_of_not_le hbase⟩ hds, heq⟩
    · rintro ⟨hm, ds, hds, heq⟩
      cases hds with
      | @cons _ d _ ds hd hds =>
        rw [hd.1]
        have hle : n * base + d ≤ m := heq ▸ le_foldl (Nat.zero_lt_of_lt hd.2) ds _
        have hlt : n * base + d < 2 ^ 64 := Nat.lt_of_le_of_lt hle hm
        dsimp only
        rw [if_neg (not_or.mpr ⟨Nat.not_le_of_lt hd.2, Nat.not_le_of_lt hlt⟩)]
        exact (ih hlt).mpr ⟨hm, ds, hds, heq⟩

/-- `parseUint` accepts the numerals of its base, and returns their value. -/
theorem parseUint_iff : parseUint base s = some n ↔ Numeral base s n := by
  unfold parseUint
  constructor
  · intro h
    split at h
    next => cases h
    next hs =>
      obtain ⟨hn, ds, hds, heq⟩ := (parseDigits_iff (by decide)).mp h
      exact ⟨hs, hn, ds, hds, heq.trans (ofDigits_reverse base ds).symm⟩
  · rintro ⟨hs, hn, ds, hds, heq⟩
    rw [if_neg hs]
    exact (parseDigits_iff (by decide)).mpr ⟨hn, ds, hds, heq.trans (ofDigits_reverse base ds)⟩

end Numbers

/-! ## Lines -/

/-- A line is a default route that is up and does not reject. -/
structure DefaultRoute (line interface : List Char) (metric : Nat) : Prop where
  length : 8 ≤ (fields line).length
  interface : (fields line)[0]? = some interface
  destination : (fields line)[1]? = some zeros
  mask : (fields line)[7]? = some zeros
  flags : ∃ text flags, (fields line)[3]? = some text ∧ Numeral 16 text flags ∧
    flags.testBit 0 = true ∧ flags.testBit 9 = false
  metric : ∃ text, (fields line)[6]? = some text ∧ Numeral 10 text metric

section Lines

variable {line interface : List Char} {metric : Nat}

/-- A flag is a bit. -/
theorem and_flag_iff (flags i : Nat) : flags &&& 2 ^ i = 0 ↔ flags.testBit i = false := by
  rw [Nat.and_two_pow]
  cases flags.testBit i with
  | true =>
    rw [Bool.toNat_true, Nat.one_mul]
    exact iff_of_false (Nat.two_pow_pos i).ne' (by decide)
  | false => exact iff_of_true (by rw [Bool.toNat_false, Nat.zero_mul]) rfl

theorem field_ne_nil {field : List Char} (h : field ∈ fields line) : field ≠ [] :=
  bne_iff_ne.mp (List.mem_filter.mp h).2

/-- **The lines that the loop does not skip.** -/
theorem defaultRoute?_iff :
    defaultRoute? line = some (interface, metric) ↔ DefaultRoute line interface metric := by
  have hup : ∀ flags, flags &&& routeFlagUp = 0 ↔ flags.testBit 0 = false := fun flags =>
    and_flag_iff flags 0
  have hreject : ∀ flags, flags &&& routeFlagReject = 0 ↔ flags.testBit 9 = false := fun flags =>
    and_flag_iff flags 9
  unfold defaultRoute?
  constructor
  · intro h
    split at h
    next name destination _ flagsText _ _ metricText mask _ hfields =>
      split at h
      next => cases h
      next hzeros =>
        obtain ⟨hdestination, hmask⟩ := not_or.mp hzeros
        split at h
        next => cases h
        next flags hflags =>
          split at h
          next => cases h
          next hbits =>
            obtain ⟨hbit, hbit'⟩ := not_or.mp hbits
            obtain ⟨number, hnumber, heq⟩ := Option.map_eq_some_iff.mp h
            cases heq
            constructor
            · rw [hfields]
              exact Nat.le_add_left 8 _
            · rw [hfields]
              rfl
            · rw [hfields, ← not_not.mp hdestination]
              rfl
            · rw [hfields, ← not_not.mp hmask]
              rfl
            · refine ⟨flagsText, flags, by rw [hfields]; rfl, parseUint_iff.mp hflags, ?_, ?_⟩
              · exact Bool.of_not_eq_false fun hfalse => hbit ((hup flags).mpr hfalse)
              · exact (hreject flags).mp (not_not.mp hbit')
            · exact ⟨metricText, by rw [hfields]; rfl, parseUint_iff.mp hnumber⟩
    next => cases h
  · rintro ⟨hlength, hname, hdestination, hmask, ⟨flagsText, flags, hflagsText, hflags, hbit, hbit'⟩,
      metricText, hmetricText, hmetric⟩
    split
    next name destination _ flagsText' _ _ metricText' mask _ hfields =>
      rw [hfields] at hname hdestination hmask hflagsText hmetricText
      cases hname
      cases hdestination
      cases hmask
      cases hflagsText
      cases hmetricText
      rw [if_neg (not_or.mpr ⟨not_not.mpr rfl, not_not.mpr rfl⟩), parseUint_iff.mpr hflags]
      dsimp only
      rw [if_neg, parseUint_iff.mpr hmetric]
      · rfl
      · rintro (hup' | hreject')
        · rw [hup, hbit] at hup'
          cases hup'
        · exact hreject' ((hreject flags).mpr hbit')
    next hnot =>
      -- eight fields have the shape that is matched
      match hfields : fields line, hlength with
      | a :: b :: c :: d :: e :: f :: g :: h :: rest, _ =>
        exact absurd hfields (hnot a b c d e f g h rest)

theorem DefaultRoute.interface_ne (h : DefaultRoute line interface metric) : interface ≠ [] :=
  field_ne_nil (List.mem_of_getElem? h.interface)

end Lines

/-! ## The loop -/

/-- The first of the default routes with the smallest metric. -/
def Best (lines : List (List Char)) (interface : List Char) (metric : Nat) : Prop :=
  ∃ before line after, lines = before ++ line :: after ∧ DefaultRoute line interface metric ∧
    (∀ other ∈ before, ∀ name m, DefaultRoute other name m → metric < m) ∧
      ∀ other ∈ after, ∀ name m, DefaultRoute other name m → metric ≤ m

section Loop

variable {lines : List (List Char)} {line interface : List Char} {metric m : Nat}

/-- No other default route has a smaller metric. -/
theorem Best.le (h : Best lines interface metric) (hline : line ∈ lines) {name : List Char}
    (hroute : DefaultRoute line name m) : metric ≤ m := by
  obtain ⟨before, best, after, rfl, hbest, hbefore, hafter⟩ := h
  rcases List.mem_append.mp hline with hline | hline
  · exact Nat.le_of_lt (hbefore line hline name m hroute)
  · rcases List.mem_cons.mp hline with rfl | hline
    · have hsame := (defaultRoute?_iff.mpr hbest).symm.trans (defaultRoute?_iff.mpr hroute)
      cases hsame
      exact Nat.le_refl _
    · exact hafter line hline name m hroute

/-- There is one best route. -/
theorem Best.unique (h : Best lines interface metric) {name : List Char} (h' : Best lines name m) :
    interface = name ∧ metric = m := by
  have hmetric : metric = m := by
    obtain ⟨before, line, after, hlines, hroute, _⟩ := id h
    obtain ⟨before', line', after', hlines', hroute', _⟩ := id h'
    have hle : metric ≤ m := h.le (hlines' ▸ List.mem_append_right _ List.mem_cons_self) hroute'
    have hge : m ≤ metric := h'.le (hlines ▸ List.mem_append_right _ List.mem_cons_self) hroute
    exact Nat.le_antisymm hle hge
  obtain ⟨before, line, after, rfl, hroute, hbefore, _⟩ := h
  obtain ⟨before', line', after', hlines, hroute', hbefore', _⟩ := h'
  -- neither of the two lines comes before the other
  have hsame : line = line' := by
    rcases List.append_eq_append_iff.mp hlines with ⟨mid, rfl, hmid⟩ | ⟨mid, rfl, hmid⟩
    · cases mid with
      | nil => exact (List.cons.inj hmid).1
      | cons c mid =>
        rw [← (List.cons.inj hmid).1] at hbefore'
        have hlt := hbefore' line (List.mem_append_right _ List.mem_cons_self) _ _ hroute
        omega
    · cases mid with
      | nil => exact (List.cons.inj hmid).1.symm
      | cons c mid =>
        rw [← (List.cons.inj hmid).1] at hbefore
        have hlt := hbefore line' (List.mem_append_right _ List.mem_cons_self) _ _ hroute'
        omega
  rw [← hsame] at hroute'
  have heq := (defaultRoute?_iff.mpr hroute).symm.trans (defaultRoute?_iff.mpr hroute')
  cases heq
  exact ⟨rfl, hmetric⟩

/-- A line that is no better leaves the best as it is. -/
theorem Best.keep (h : Best lines interface metric)
    (hline : ∀ name m, DefaultRoute line name m → metric ≤ m) :
    Best (lines ++ [line]) interface metric := by
  obtain ⟨before, best, after, rfl, hbest, hbefore, hafter⟩ := h
  refine ⟨before, best, after ++ [line], by rw [List.append_assoc, List.cons_append], hbest,
    hbefore, ?_⟩
  intro other hother
  rcases List.mem_append.mp hother with hother | hother
  · exact hafter other hother
  · rw [List.mem_singleton.mp hother]
    exact hline

/-- A route that is better than every line before becomes the best. -/
theorem best_snoc (hroute : DefaultRoute line interface metric)
    (hbefore : ∀ other ∈ lines, ∀ name m, DefaultRoute other name m → metric < m) :
    Best (lines ++ [line]) interface metric :=
  ⟨lines, line, [], rfl, hroute, hbefore, fun _ h => absurd h List.not_mem_nil⟩

/-- What the loop has selected of the lines it has read. -/
structure Selects (lines : List (List Char)) (selected : List Char × Nat) : Prop where
  none : selected.1 = [] → ∀ line ∈ lines, ∀ name m, ¬ DefaultRoute line name m
  some : selected.1 ≠ [] → Best lines selected.1 selected.2

/-- The selection after one more line is the best of the lines so far, the earlier one at a tie. -/
theorem Selects.step {selected : List Char × Nat} (h : Selects lines selected) (line : List Char) :
    Selects (lines ++ [line]) (selectRoute selected line) := by
  unfold selectRoute
  cases hroute : defaultRoute? line with
  | none =>
    have hno : ∀ name m, ¬ DefaultRoute line name m := fun name m hline => by
      rw [defaultRoute?_iff.mpr hline] at hroute
      cases hroute
    refine ⟨fun hselected other hother => ?_, fun hselected => ?_⟩
    · rcases List.mem_append.mp hother with hother | hother
      · exact h.none hselected other hother
      · rw [List.mem_singleton.mp hother]
        exact hno
    · exact (h.some hselected).keep fun name m hline => absurd hline (hno name m)
  | some route =>
    have hline : DefaultRoute line route.1 route.2 := defaultRoute?_iff.mp hroute
    dsimp only
    split
    next hbetter =>
      refine ⟨fun hselected => absurd hselected hline.interface_ne, fun _ => ?_⟩
      refine best_snoc hline fun other hother name m hroute' => ?_
      by_cases hselected : selected.1 = []
      · exact absurd hroute' (h.none hselected other hother name m)
      · exact Nat.lt_of_lt_of_le (hbetter.resolve_left hselected)
          ((h.some hselected).le hother hroute')
    next hnot =>
      obtain ⟨hselected, hge⟩ := not_or.mp hnot
      refine ⟨fun hnone => absurd hnone hselected, fun _ => (h.some hselected).keep ?_⟩
      intro name m hroute'
      have hsame := hroute.symm.trans (defaultRoute?_iff.mpr hroute')
      cases hsame
      exact Nat.le_of_not_lt hge

/-- **The loop selects the best default route**, by induction on the lines it has read. -/
theorem selects_foldl (lines : List (List Char)) : Selects lines (lines.foldl selectRoute ([], 0)) := by
  induction lines using List.reverseRecOn with
  | nil =>
    exact ⟨fun _ _ h => absurd h List.not_mem_nil, fun h => absurd rfl h⟩
  | append_singleton lines line ih =>
    rw [List.foldl_append, List.foldl_cons, List.foldl_nil]
    exact ih.step line

theorem splitLines_ne_nil {text : List Char} (h : text ≠ []) : splitLines text ≠ [] := by
  cases text with
  | nil => exact absurd rfl h
  | cons c cs =>
    rw [splitLines]
    split
    next => exact List.cons_ne_nil _ _
    next => split <;> exact List.cons_ne_nil _ _

/-- A text whose lines fit the buffer is scanned to its end. -/
theorem scan_fits {text : List Char} (h : ∀ line ∈ splitLines text, Fits line) :
    scan text = ((splitLines text).map dropCR, false) := by
  unfold scan
  rw [List.takeWhile_eq_self_iff.mpr fun line hline => decide_eq_true (h line hline)]
  refine congrArg (Prod.mk _) (List.any_eq_false.mpr fun line hline => ?_)
  rw [decide_eq_true (h line hline)]
  exact Bool.false_ne_true

end Loop

/-- The lines after the header. -/
def routes (text : List Char) : List (List Char) := ((splitLines text).map dropCR).tail

/-- **The interface of the first default route with the smallest metric is selected**, and it is an
error exactly if there is no default route: no line with destination and mask zero that is up and
does not reject. Lines are taken to fit into the buffer of the scanner. -/
theorem defaultRouteInterface_selects (text : List Char) (hfits : ∀ line ∈ splitLines text, Fits line) :
    (∀ interface, defaultRouteInterface text = .ok interface ↔
      ∃ metric, Best (routes text) interface metric) ∧
      ((∃ err, defaultRouteInterface text = .error err) ↔
        text = [] ∨ ∀ line ∈ routes text, ∀ interface metric, ¬ DefaultRoute line interface metric) := by
  unfold defaultRouteInterface routes
  rw [scan_fits hfits]
  cases hlines : (splitLines text).map dropCR with
  | nil =>
    have htext : text = [] := of_not_not fun h => splitLines_ne_nil h (List.map_eq_nil_iff.mp hlines)
    refine ⟨fun interface => ⟨fun h => (by cases h), ?_⟩, fun _ => Or.inl htext, fun _ => ⟨_, rfl⟩⟩
    rintro ⟨_, _, _, _, h, _⟩
    exact absurd h.symm (List.append_ne_nil_of_right_ne_nil _ (List.cons_ne_nil _ _))
  | cons header lines =>
    have hselects := selects_foldl lines
    have htext : text ≠ [] := by
      rintro rfl
      cases hlines
    dsimp only
    rw [if_neg Bool.false_ne_true, List.tail_cons]
    split
    next hnone =>
      have hno := hselects.none hnone
      refine ⟨fun interface => ⟨fun h => (by cases h), ?_⟩, fun _ => Or.inr hno, fun _ => ⟨_, rfl⟩⟩
      rintro ⟨metric, before, line, after, rfl, hroute, _⟩
      exact absurd hroute (hno line (List.mem_append_right _ List.mem_cons_self) interface metric)
    next hsome =>
      have hbest := hselects.some hsome
      refine ⟨fun interface => ⟨fun h => ?_, ?_⟩, fun ⟨err, h⟩ => (by cases h), ?_⟩
      · cases h
        exact ⟨_, hbest⟩
      · rintro ⟨metric, h⟩
        exact congrArg Except.ok (hbest.unique h).1
      · rintro (h | h)
        · exact absurd h htext
        · obtain ⟨before, line, after, rfl, hroute, _⟩ := hbest
          exact absurd hroute (h line (List.mem_append_right _ List.mem_cons_self) _ _)

/-- Two routes of one metric, and one that is down. -/
def table : List Char :=
  "Iface\ndown0 00000000 0 0 0 0 1 00000000\neth0 00000000 0 3 0 0 9 00000000\neth1 00000000 0 3 0 0 9 00000000\n".toList

theorem table_eth0 : ∃ metric, Best (routes table) "eth0".toList metric :=
  ((defaultRouteInterface_selects table (by decide +kernel)).1 _).mp (by decide +kernel)

end TinyProbe.Agent
