import Mathlib.Data.List.Basic

/-!
# Valid JSON, letter by letter

The scanner behind `json.Valid`: a mode that says what the next letter may be, and a stack with a
frame for each open object and array. A text is valid if the scanner is behind the value once a
blank has followed it.

Texts that are put into a document from outside are of three kinds, and each kind has a law. A
quoted text takes the scanner from where a value or a key is due to behind it (`scan_quote`), a
number from where a value is due to behind its digits (`scan_number`), and text without quotes,
backslashes and control characters leaves a string literal open (`scan_plain`). Behind a number the
scanner still knows how the number was written, which a letter that cannot go on with it makes it
forget (`step_numeric`).
-/

namespace TinyProbe.Json

/-- `parseObjectKey`, `parseObjectValue` and `parseArrayValue`. -/
inductive Frame where
  | objectKey
  | objectValue
  | arrayValue
deriving DecidableEq, Repr

/-- The step functions of the scanner, by name. -/
inductive Mode where
  | beginValue
  | beginValueOrEmpty
  | beginString
  | beginStringOrEmpty
  | endValue
  | endTop
  | inString
  | inStringEsc
  /-- In a `\u` escape, with so many digits to come behind the next one. -/
  | inStringEscU (left : Nat)
  | neg
  | num0
  | num1
  | dot
  | dot0
  | e
  | eSign
  | e0
  /-- In `true`, `false` or `null`: the next letter and those behind it. -/
  | literal (next : Char) (rest : List Char)
  | error
deriving DecidableEq, Repr

/-- `scanner`. -/
structure Scanner where
  mode : Mode
  stack : List Frame
deriving DecidableEq, Repr

/-- `maxNestingDepth`. -/
def maxNestingDepth : Nat := 10000

def isSpace (c : Char) : Bool := c = ' ' ∨ c = '\t' ∨ c = '\r' ∨ c = '\n'

def isHex (c : Char) : Bool := c.isDigit || ('a' ≤ c ∧ c ≤ 'f') || ('A' ≤ c ∧ c ≤ 'F')

/-- `scan.reset()`. -/
def start : Scanner := ⟨.beginValue, []⟩

def fail : Scanner := ⟨.error, []⟩

/-- `pushParseState`. -/
def push (mode : Mode) (frame : Frame) (stack : List Frame) : Scanner :=
  if stack.length < maxNestingDepth then ⟨mode, frame :: stack⟩ else fail

/-- `popParseState`, for the stack that is left. -/
def pop : List Frame → Scanner
  | [] => ⟨.endTop, []⟩
  | stack => ⟨.endValue, stack⟩

/-- `stateEndValue`. -/
def endValue : List Frame → Char → Scanner
  | [], c => if isSpace c then ⟨.endTop, []⟩ else fail
  | frame :: stack, c =>
    if isSpace c then ⟨.endValue, frame :: stack⟩
    else
      match frame with
      | .objectKey => if c = ':' then ⟨.beginValue, .objectValue :: stack⟩ else fail
      | .objectValue =>
        if c = ',' then ⟨.beginString, .objectKey :: stack⟩
        else if c = '}' then pop stack
        else fail
      | .arrayValue =>
        if c = ',' then ⟨.beginValue, .arrayValue :: stack⟩
        else if c = ']' then pop stack
        else fail

/-- `stateBeginValue`, for a letter that is no space. -/
def beginValue (stack : List Frame) (c : Char) : Scanner :=
  if c = '{' then push .beginStringOrEmpty .objectKey stack
  else if c = '[' then push .beginValueOrEmpty .arrayValue stack
  else if c = '"' then ⟨.inString, stack⟩
  else if c = '-' then ⟨.neg, stack⟩
  else if c = '0' then ⟨.num0, stack⟩
  else if c = 't' then ⟨.literal 'r' ['u', 'e'], stack⟩
  else if c = 'f' then ⟨.literal 'a' ['l', 's', 'e'], stack⟩
  else if c = 'n' then ⟨.literal 'u' ['l', 'l'], stack⟩
  else if c.isDigit then ⟨.num1, stack⟩
  else fail

/-- `stateBeginString`, for a letter that is no space. -/
def beginString (stack : List Frame) (c : Char) : Scanner :=
  if c = '"' then ⟨.inString, stack⟩ else fail

/-- `state0`. -/
def afterInteger (stack : List Frame) (c : Char) : Scanner :=
  if c = '.' then ⟨.dot, stack⟩
  else if c = 'e' ∨ c = 'E' then ⟨.e, stack⟩
  else endValue stack c

/-- `stateESign`. -/
def exponentDigit (stack : List Frame) (c : Char) : Scanner :=
  if c.isDigit then ⟨.e0, stack⟩ else fail

/-- `scan.step(scan, c)`. -/
def step (s : Scanner) (c : Char) : Scanner :=
  match s.mode with
  | .beginValueOrEmpty =>
    if isSpace c then s else if c = ']' then endValue s.stack c else beginValue s.stack c
  | .beginValue => if isSpace c then s else beginValue s.stack c
  | .beginStringOrEmpty =>
    if isSpace c then s
    else if c = '}' then endValue (.objectValue :: s.stack.tail) c
    else beginString s.stack c
  | .beginString => if isSpace c then s else beginString s.stack c
  | .endValue => endValue s.stack c
  | .endTop => if isSpace c then s else fail
  | .inString =>
    if c = '"' then ⟨.endValue, s.stack⟩
    else if c = '\\' then ⟨.inStringEsc, s.stack⟩
    else if c.toNat < 32 then fail
    else s
  | .inStringEsc =>
    if c = 'b' ∨ c = 'f' ∨ c = 'n' ∨ c = 'r' ∨ c = 't' ∨ c = '\\' ∨ c = '/' ∨ c = '"' then
      ⟨.inString, s.stack⟩
    else if c = 'u' then ⟨.inStringEscU 3, s.stack⟩
    else fail
  | .inStringEscU left =>
    if isHex c then
      match left with
      | 0 => ⟨.inString, s.stack⟩
      | left + 1 => ⟨.inStringEscU left, s.stack⟩
    else fail
  | .neg =>
    if c = '0' then ⟨.num0, s.stack⟩ else if c.isDigit then ⟨.num1, s.stack⟩ else fail
  | .num1 => if c.isDigit then s else afterInteger s.stack c
  | .num0 => afterInteger s.stack c
  | .dot => if c.isDigit then ⟨.dot0, s.stack⟩ else fail
  | .dot0 =>
    if c.isDigit then s
    else if c = 'e' ∨ c = 'E' then ⟨.e, s.stack⟩
    else endValue s.stack c
  | .e => if c = '+' ∨ c = '-' then ⟨.eSign, s.stack⟩ else exponentDigit s.stack c
  | .eSign => exponentDigit s.stack c
  | .e0 => if c.isDigit then s else endValue s.stack c
  | .literal next rest =>
    if c = next then
      match rest with
      | [] => ⟨.endValue, s.stack⟩
      | next :: rest => ⟨.literal next rest, s.stack⟩
    else fail
  | .error => s

/-- The scanner behind a text. -/
def scan (s : Scanner) (text : List Char) : Scanner := text.foldl step s

/-- `json.Valid`: `eof` lets a blank follow the text. -/
def valid (text : List Char) : Bool := (step (scan start text) ' ').mode = .endTop

section Scan

variable {s : Scanner} {c : Char} {text more : List Char}

@[simp] theorem scan_nil : scan s [] = s := rfl

@[simp] theorem scan_cons : scan s (c :: text) = scan (step s c) text := rfl

@[simp] theorem scan_append : scan s (text ++ more) = scan (scan s text) more :=
  List.foldl_append

end Scan

/-! ## Where a value is due -/

/-- A value is due. -/
def Scanner.AtValue (s : Scanner) : Prop := s.mode = .beginValue ∨ s.mode = .beginValueOrEmpty

/-- A key is due. -/
def Scanner.AtKey (s : Scanner) : Prop := s.mode = .beginString ∨ s.mode = .beginStringOrEmpty

instance (s : Scanner) : Decidable s.AtValue := inferInstanceAs (Decidable (_ ∨ _))

instance (s : Scanner) : Decidable s.AtKey := inferInstanceAs (Decidable (_ ∨ _))

section Due

variable {s : Scanner} {c : Char}

/-- A letter that is neither a space nor closes the array begins the value. -/
theorem step_atValue (h : s.AtValue) (hspace : isSpace c = false) (hclose : c ≠ ']') :
    step s c = beginValue s.stack c := by
  rcases h with h | h
  · rw [step, h]
    simp only [hspace, Bool.false_eq_true, if_false]
  · rw [step, h]
    simp only [hspace, Bool.false_eq_true, if_false, hclose]

/-- A quote begins a string, where a value or a key may stand. -/
theorem step_quote (h : s.AtValue ∨ s.AtKey) : step s '"' = ⟨.inString, s.stack⟩ := by
  rcases h with h | h | h
  · exact step_atValue h (by decide) (by decide)
  · rw [step, h]
    rfl
  · rw [step, h]
    rfl

end Due

/-! ## String literals -/

/-- The letter stands for itself in a string literal. -/
def Plain (c : Char) : Prop := c ≠ '"' ∧ c ≠ '\\' ∧ ¬ c.toNat < 32

instance (c : Char) : Decidable (Plain c) := inferInstanceAs (Decidable (_ ∧ _))

/-- A text of known letters is checked letter by letter. -/
theorem plain_of_all {text : List Char} (h : text.all (fun c => decide (Plain c)) = true) :
    ∀ c ∈ text, Plain c := fun c hc => of_decide_eq_true (List.all_eq_true.mp h c hc)

def hexDigit (n : Nat) : Char := "0123456789abcdef".toList.getD n '0'

/-- `\u` and four digits. -/
def escapeU (n : Nat) : List Char :=
  ['\\', 'u', hexDigit (n / 4096 % 16), hexDigit (n / 256 % 16), hexDigit (n / 16 % 16),
    hexDigit (n % 16)]

/-- A letter as `appendString` writes it, with `escapeHTML` on. -/
def escape (c : Char) : List Char :=
  if c = '"' ∨ c = '\\' then ['\\', c]
  else if c = '\x08' then ['\\', 'b']
  else if c = '\x0c' then ['\\', 'f']
  else if c = '\n' then ['\\', 'n']
  else if c = '\r' then ['\\', 'r']
  else if c = '\t' then ['\\', 't']
  else if c.toNat < 32 ∨ c = '<' ∨ c = '>' ∨ c = '&' ∨ c = '\u2028' ∨ c = '\u2029' then
    escapeU c.toNat
  else [c]

/-- `json.Marshal` of a string. -/
def quote (text : List Char) : List Char := '"' :: text.flatMap escape ++ ['"']

section Strings

variable {stack : List Frame} {c : Char} {text : List Char}

/-- A plain character stays in the string. -/
theorem step_plain (h : Plain c) : step ⟨.inString, stack⟩ c = ⟨.inString, stack⟩ := by
  rw [step]
  simp only [h.1, h.2.1, h.2.2, if_false]

/-- **Plain text stays in the string literal.** -/
theorem scan_plain (h : ∀ c ∈ text, Plain c) :
    scan ⟨.inString, stack⟩ text = ⟨.inString, stack⟩ := by
  induction text with
  | nil => rfl
  | cons c text ih =>
    rw [scan_cons, step_plain (h c List.mem_cons_self)]
    exact ih fun d hd => h d (List.mem_cons_of_mem _ hd)

/-- The digits of the escapes are hexadecimal. -/
theorem isHex_hexDigit : ∀ n < 16, isHex (hexDigit n) = true := by decide

/-- An escape of four digits stays in the string. -/
theorem scan_escapeU (n : Nat) : scan ⟨.inString, stack⟩ (escapeU n) = ⟨.inString, stack⟩ := by
  have hex : ∀ m, isHex (hexDigit (m % 16)) = true := fun m =>
    isHex_hexDigit _ (Nat.mod_lt m (by decide))
  have hopen : scan ⟨.inString, stack⟩ ['\\', 'u'] = ⟨.inStringEscU 3, stack⟩ := rfl
  show scan (scan ⟨.inString, stack⟩ ['\\', 'u']) _ = _
  rw [hopen]
  simp only [scan_cons, scan_nil, step, hex, if_true]

/-- An escaped letter stays in the string literal. -/
theorem scan_escape (c : Char) : scan ⟨.inString, stack⟩ (escape c) = ⟨.inString, stack⟩ := by
  unfold escape
  split
  next h => rcases h with rfl | rfl <;> rfl
  next hc =>
    split
    next => rfl
    next =>
      split
      next => rfl
      next =>
        split
        next => rfl
        next =>
          split
          next => rfl
          next =>
            split
            next => rfl
            next =>
              split
              next => exact scan_escapeU _
              next hrest =>
                simp only [not_or] at hc hrest
                exact step_plain ⟨hc.1, hc.2, hrest.1⟩

/-- **A quoted text** is a value or a key. -/
theorem scan_quote {s : Scanner} (h : s.AtValue ∨ s.AtKey) (text : List Char) :
    scan s (quote text) = ⟨.endValue, s.stack⟩ := by
  have hbody : ∀ text : List Char,
      scan ⟨.inString, s.stack⟩ (text.flatMap escape) = ⟨.inString, s.stack⟩ := by
    intro text
    induction text with
    | nil => rfl
    | cons c text ih => rw [List.flatMap_cons, scan_append, scan_escape, ih]
  rw [quote, List.cons_append, scan_cons, scan_append, step_quote h, hbody]
  rfl

/-- Quotes around plain text. -/
theorem scan_quoted {s : Scanner} (h : s.AtValue ∨ s.AtKey) (hplain : ∀ c ∈ text, Plain c) :
    scan s ('"' :: text ++ ['"']) = ⟨.endValue, s.stack⟩ := by
  rw [List.cons_append, scan_cons, scan_append, step_quote h, scan_plain hplain]
  rfl

/-- `null` is a value. -/
theorem scan_null {s : Scanner} (h : s.AtValue) :
    scan s "null".toList = ⟨.endValue, s.stack⟩ := by
  show scan (step s 'n') ['u', 'l', 'l'] = _
  rw [step_atValue h (by decide) (by decide)]
  rfl

end Strings

/-! ## Numbers -/

/-- Digits, at least one. -/
def Digits (text : List Char) : Prop := text ≠ [] ∧ ∀ c ∈ text, c.isDigit = true

/-- The integer part of a number: no leading zero. -/
inductive IntegerPart : List Char → Prop
  | zero : IntegerPart ['0']
  | digits {c : Char} {text : List Char} (nonzero : c ≠ '0') (digit : c.isDigit = true)
      (all : ∀ d ∈ text, d.isDigit = true) : IntegerPart (c :: text)

inductive FractionPart : List Char → Prop
  | none : FractionPart []
  | some {text : List Char} (digits : Digits text) : FractionPart ('.' :: text)

inductive ExponentPart : List Char → Prop
  | none : ExponentPart []
  | some {mark : Char} {sign text : List Char} (exponent : mark = 'e' ∨ mark = 'E')
      (signed : sign = [] ∨ sign = ['+'] ∨ sign = ['-']) (digits : Digits text) :
      ExponentPart (mark :: (sign ++ text))

/-- The numbers of JSON. -/
inductive Number : List Char → Prop
  | mk {sign int frac exp : List Char} (signed : sign = [] ∨ sign = ['-']) (int' : IntegerPart int)
      (frac' : FractionPart frac) (exp' : ExponentPart exp) : Number (sign ++ int ++ frac ++ exp)

/-- The scanner is behind a digit of a number that may end there. -/
def Mode.Numeric (mode : Mode) : Prop := mode = .num0 ∨ mode = .num1 ∨ mode = .dot0 ∨ mode = .e0

/-- The letter may go on with a number. -/
def continues (c : Char) : Bool := c.isDigit || c = '.' || c = 'e' || c = 'E'

section Numbers

variable {stack : List Frame} {c : Char} {text : List Char}

/-- **A letter that cannot go on with the number** ends it, however the number was written. -/
theorem step_numeric {mode : Mode} (h : mode.Numeric) (hc : continues c = false) :
    step ⟨mode, stack⟩ c = endValue stack c := by
  simp only [continues, Bool.or_eq_false_iff, decide_eq_false_iff_not] at hc
  obtain ⟨⟨⟨hdigit, hdot⟩, he⟩, hE⟩ := hc
  rcases h with rfl | rfl | rfl | rfl <;>
    simp only [step, afterInteger, hdigit, hdot, he, hE, or_self, Bool.false_eq_true, if_false]

/-- Digits continue the part of a number that they stand in. -/
theorem scan_digits {mode : Mode} (hmode : mode = .num1 ∨ mode = .dot0 ∨ mode = .e0)
    (h : ∀ c ∈ text, c.isDigit = true) : scan ⟨mode, stack⟩ text = ⟨mode, stack⟩ := by
  induction text with
  | nil => rfl
  | cons c text ih =>
    have hstep : step ⟨mode, stack⟩ c = ⟨mode, stack⟩ := by
      have hc := h c List.mem_cons_self
      rcases hmode with rfl | rfl | rfl <;> simp only [step, hc, if_true]
    rw [scan_cons, hstep]
    exact ih fun d hd => h d (List.mem_cons_of_mem _ hd)

/-- A digit other than zero is none of the letters that begin something else. -/
theorem beginValue_digit (hdigit : c.isDigit = true) (hzero : c ≠ '0') :
    beginValue stack c = ⟨.num1, stack⟩ := by
  have hne : ∀ d : Char, d.isDigit = false → c ≠ d := fun d hd heq => by
    rw [heq, hd] at hdigit
    cases hdigit
  simp only [beginValue, hzero, hdigit, hne '{' rfl, hne '[' rfl, hne '"' rfl, hne '-' rfl,
    hne 't' rfl, hne 'f' rfl, hne 'n' rfl, if_false, if_true]

private theorem isSpace_digit (hdigit : c.isDigit = true) : isSpace c = false := by
  have hne : ∀ d : Char, d.isDigit = false → c ≠ d := fun d hd heq => by
    rw [heq, hd] at hdigit
    cases hdigit
  simp only [isSpace, hne ' ' rfl, hne '\t' rfl, hne '\r' rfl, hne '\n' rfl, or_self,
    decide_false]

private theorem scan_integerPart {s : Scanner} (hs : s.AtValue ∨ s.mode = .neg)
    (h : IntegerPart text) : scan s text = ⟨.num0, s.stack⟩ ∨ scan s text = ⟨.num1, s.stack⟩ := by
  cases h with
  | zero =>
    refine Or.inl ?_
    rcases hs with hs | hs
    · exact step_atValue hs (by decide) (by decide)
    · rw [scan_cons, scan_nil, step, hs]
      rfl
  | @digits c text hzero hdigit hall =>
    refine Or.inr ?_
    have hstep : step s c = ⟨.num1, s.stack⟩ := by
      rcases hs with hs | hs
      · have hclose : c ≠ ']' := by rintro rfl; cases hdigit
        rw [step_atValue hs (isSpace_digit hdigit) hclose, beginValue_digit hdigit hzero]
      · rw [step, hs]
        simp only [hzero, hdigit, if_false, if_true]
    rw [scan_cons, hstep]
    exact scan_digits (Or.inl rfl) hall

private theorem scan_fractionPart {mode : Mode} (hmode : mode = .num0 ∨ mode = .num1)
    (h : FractionPart text) :
    ∃ mode', (mode' = .num0 ∨ mode' = .num1 ∨ mode' = .dot0) ∧
      scan ⟨mode, stack⟩ text = ⟨mode', stack⟩ := by
  cases h with
  | none => exact ⟨mode, hmode.imp_right Or.inl, rfl⟩
  | @some text hdigits =>
    have hdot : step ⟨mode, stack⟩ '.' = ⟨.dot, stack⟩ := by rcases hmode with rfl | rfl <;> rfl
    refine ⟨.dot0, Or.inr (Or.inr rfl), ?_⟩
    rw [scan_cons, hdot]
    cases text with
    | nil => exact absurd rfl hdigits.1
    | cons c text =>
      have hc := hdigits.2 c List.mem_cons_self
      rw [scan_cons, show step ⟨.dot, stack⟩ c = ⟨.dot0, stack⟩ by simp only [step, hc, if_true]]
      exact scan_digits (Or.inr (Or.inl rfl)) fun d hd => hdigits.2 d (List.mem_cons_of_mem _ hd)

private theorem scan_exponentPart {mode : Mode} (hmode : mode = .num0 ∨ mode = .num1 ∨ mode = .dot0)
    (h : ExponentPart text) :
    ∃ mode', mode'.Numeric ∧ scan ⟨mode, stack⟩ text = ⟨mode', stack⟩ := by
  cases h with
  | none => exact ⟨mode, hmode.imp_right (Or.imp_right Or.inl), rfl⟩
  | @some mark sign text hmark hsign hdigits =>
    have hstep : step ⟨mode, stack⟩ mark = ⟨.e, stack⟩ := by
      rcases hmark with rfl | rfl <;> rcases hmode with rfl | rfl | rfl <;> rfl
    have hsigned : scan ⟨.e, stack⟩ sign = ⟨.e, stack⟩ ∨
        scan ⟨.e, stack⟩ sign = ⟨.eSign, stack⟩ := by
      rcases hsign with rfl | rfl | rfl
      · exact Or.inl rfl
      · exact Or.inr rfl
      · exact Or.inr rfl
    refine ⟨.e0, Or.inr (Or.inr (Or.inr rfl)), ?_⟩
    rw [scan_cons, hstep, scan_append]
    cases text with
    | nil => exact absurd rfl hdigits.1
    | cons c text =>
      have hc := hdigits.2 c List.mem_cons_self
      have hfirst : ∀ mode, mode = .e ∨ mode = .eSign → step ⟨mode, stack⟩ c = ⟨.e0, stack⟩ := by
        have hplus : c ≠ '+' := by rintro rfl; cases hc
        have hminus : c ≠ '-' := by rintro rfl; cases hc
        rintro mode (rfl | rfl) <;>
          simp only [step, exponentDigit, hplus, hminus, or_self, hc, if_false, if_true]
      have hrest : scan ⟨.e0, stack⟩ text = ⟨.e0, stack⟩ :=
        scan_digits (Or.inr (Or.inr rfl)) fun d hd => hdigits.2 d (List.mem_cons_of_mem c hd)
      rcases hsigned with h | h
      · rw [h, scan_cons, hfirst _ (Or.inl rfl), hrest]
      · rw [h, scan_cons, hfirst _ (Or.inr rfl), hrest]

/-- **A number** is a value, up to what may still come behind its digits. -/
theorem scan_number {s : Scanner} (hs : s.AtValue) (h : Number text) :
    ∃ mode, mode.Numeric ∧ scan s text = ⟨mode, s.stack⟩ := by
  cases h with
  | @mk sign int frac exp hsign hint hfrac hexp =>
    have hint' : scan s (sign ++ int) = ⟨.num0, s.stack⟩ ∨
        scan s (sign ++ int) = ⟨.num1, s.stack⟩ := by
      rw [scan_append]
      rcases hsign with rfl | rfl
      · exact scan_integerPart (Or.inl hs) hint
      · have hneg : scan s ['-'] = ⟨.neg, s.stack⟩ := step_atValue hs (by decide) (by decide)
        rw [hneg]
        exact scan_integerPart (Or.inr rfl) hint
    obtain ⟨mode, hmode, hscan⟩ : ∃ mode, (mode = .num0 ∨ mode = .num1) ∧
        scan s (sign ++ int) = ⟨mode, s.stack⟩ := by
      rcases hint' with h | h
      · exact ⟨_, Or.inl rfl, h⟩
      · exact ⟨_, Or.inr rfl, h⟩
    obtain ⟨mode', hmode', hfrac'⟩ := @scan_fractionPart s.stack frac mode hmode hfrac
    obtain ⟨mode'', hmode'', hexp'⟩ := @scan_exponentPart s.stack exp mode' hmode' hexp
    refine ⟨mode'', hmode'', ?_⟩
    rw [scan_append, scan_append, hscan, hfrac', hexp']

/-- Digits are plain. -/
theorem plain_of_isDigit (hdigit : c.isDigit = true) : Plain c := by
  obtain ⟨hle, hge⟩ := Char.isDigit_iff_toNat.mp hdigit
  refine ⟨?_, ?_, fun hlt => ?_⟩
  · rintro rfl
    exact absurd hle (by decide)
  · rintro rfl
    exact absurd hge (by decide)
  · exact absurd (Nat.lt_of_le_of_lt hle hlt) (by decide)

/-- A number has no letter that ends or escapes a string literal. -/
theorem Number.plain (h : Number text) : ∀ c ∈ text, Plain c := by
  have hdigits : ∀ {text : List Char}, (∀ c ∈ text, c.isDigit = true) → ∀ c ∈ text, Plain c :=
    fun h c hc => plain_of_isDigit (h c hc)
  have hcons : ∀ {c : Char} {text : List Char}, Plain c → (∀ d ∈ text, Plain d) →
      ∀ d ∈ c :: text, Plain d := fun hc htext => List.forall_mem_cons.mpr ⟨hc, htext⟩
  cases h with
  | @mk sign int frac exp hsign hint hfrac hexp =>
    simp only [List.forall_mem_append]
    refine ⟨⟨⟨?_, ?_⟩, ?_⟩, ?_⟩
    · rcases hsign with rfl | rfl <;> exact plain_of_all rfl
    · cases hint with
      | zero => exact plain_of_all rfl
      | digits _ hdigit hall => exact hdigits (List.forall_mem_cons.mpr ⟨hdigit, hall⟩)
    · cases hfrac with
      | none => exact plain_of_all rfl
      | some h => exact hcons (by decide) (hdigits h.2)
    · cases hexp with
      | none => exact plain_of_all rfl
      | some hmark hsign h =>
        refine hcons (by rcases hmark with rfl | rfl <;> decide) ?_
        refine List.forall_mem_append.mpr ⟨?_, hdigits h.2⟩
        rcases hsign with rfl | rfl | rfl <;> exact plain_of_all rfl

/-- A natural number has no zero in front of it, unless it is zero. -/
theorem integerPart_toDigits (n : Nat) : IntegerPart (Nat.toDigits 10 n) := by
  induction n using Nat.strongRecOn with
  | ind n ih =>
    rcases Nat.lt_or_ge n 10 with hn | hn
    · have hall : ∀ n < 10, n ≠ 0 → Nat.digitChar n ≠ '0' := by decide
      rw [Nat.toDigits_of_lt_base hn]
      by_cases hzero : n = 0
      · rw [hzero]
        exact IntegerPart.zero
      · refine IntegerPart.digits (hall n hn hzero) ?_ (fun d hd => absurd hd List.not_mem_nil)
        rw [Nat.isDigit_digitChar, decide_eq_true hn]
    · -- the last digit is behind those of the quotient, which is not zero
      have hquotient := ih (n / 10) (by omega)
      have hlast : (Nat.digitChar (n % 10)).isDigit = true := by
        rw [Nat.isDigit_digitChar, decide_eq_true (Nat.mod_lt n (by decide))]
      rw [Nat.toDigits_of_base_le (by decide) hn]
      generalize hdigits : Nat.toDigits 10 (n / 10) = text at hquotient
      cases hquotient with
      | zero =>
        have hzero := congrArg (Nat.ofDigitChars 10 · 0) hdigits
        simp only [Nat.ofDigitChars_ten_toDigits] at hzero
        have : Nat.ofDigitChars 10 ['0'] 0 = 0 := by decide
        omega
      | digits hne hdigit hall =>
        refine IntegerPart.digits hne hdigit (List.forall_mem_append.mpr ⟨hall, ?_⟩)
        exact fun d hd => List.mem_singleton.mp hd ▸ hlast

/-- **Integers are numbers.** -/
theorem number_int (n : Int) : Number (toString n).toList := by
  have hmk : ∀ {sign : List Char}, sign = [] ∨ sign = ['-'] → ∀ m : Nat,
      Number (sign ++ Nat.toDigits 10 m) := fun hsign m => by
    have h := Number.mk hsign (integerPart_toDigits m) FractionPart.none ExponentPart.none
    rwa [List.append_nil, List.append_nil] at h
  cases n with
  | ofNat m =>
    have htext : (toString (Int.ofNat m)).toList = [] ++ Nat.toDigits 10 m := Nat.toList_repr
    rw [htext]
    exact hmk (Or.inl rfl) m
  | negSucc m =>
    have htext : (toString (Int.negSucc m)).toList = ['-'] ++ Nat.toDigits 10 (m + 1) := by
      show ("-" ++ Nat.repr (m + 1)).toList = _
      rw [String.toList_append, Nat.toList_repr]
      rfl
    rw [htext]
    exact hmk (Or.inr rfl) (m + 1)

end Numbers

end TinyProbe.Json
