import TinyProbe.Alerting.Template

/-!
# Fields in place

Whether the renderings of a template are JSON is decided by its literal text and by where its fields
stand, and by the data only through raw text. `follow` takes the scanner through a template with a
canonical text for each field. `scan_execute` is the induction: with all fields in place and the
data writable, the rendering leaves the scanner where `follow` does, except that a number may have
been written in several ways, which the text behind it makes the scanner forget.
-/

namespace TinyProbe

open Json

/-! ## What the fields write -/

namespace Rfc3339

open Calendar Decimal

private theorem plain_of_digit {c : Char} (h : '0' ≤ c ∧ c ≤ '9') : Plain c :=
  plain_of_isDigit (Char.isDigit_iff_toNat.mpr h)

private theorem plain_pad {w n : Nat} : ∀ c ∈ pad w n, Plain c := fun _ hc =>
  plain_of_digit (digit_of_mem_pad hc)

private theorem plain_fraction {w n : Nat} : ∀ c ∈ fraction w n, Plain c := fun _ hc =>
  plain_of_digit (digit_of_mem_fraction hc)

private theorem plain_appendInt {x : Int} {width : Nat} : ∀ c ∈ appendInt x width, Plain c := by
  refine List.forall_mem_append.mpr ⟨?_, ?_⟩
  · split <;> exact plain_of_all rfl
  · split
    next => exact plain_pad
    next =>
      exact fun c hc => plain_of_isDigit (Nat.isDigit_of_mem_toDigits (by decide) (by decide) hc)

private theorem plain_dateText {day : Int} : ∀ c ∈ dateText day, Plain c := by
  simp only [dateText, List.forall_mem_append, List.forall_mem_cons]
  exact ⟨plain_appendInt, by decide, plain_pad, by decide, plain_pad⟩

private theorem plain_clockText {second : Nat} : ∀ c ∈ clockText second, Plain c := by
  simp only [clockText, List.forall_mem_append, List.forall_mem_cons]
  exact ⟨plain_pad, by decide, plain_pad, by decide, plain_pad⟩

private theorem plain_suffix {digits : List Char} (h : ∀ c ∈ digits, Plain c) :
    ∀ c ∈ suffix digits, Plain c := by
  cases digits with
  | nil => exact plain_of_all rfl
  | cons d ds =>
    simp only [suffix, List.cons_append, List.forall_mem_cons, List.forall_mem_append] at h ⊢
    exact ⟨by decide, h.1, h.2, by decide, fun c hc => absurd hc List.not_mem_nil⟩

end Rfc3339

namespace Time

open Rfc3339

variable {t : Time}

private theorem plain_formatSecond : ∀ c ∈ t.formatSecond, Plain c := by
  simp only [formatSecond, List.forall_mem_append, List.forall_mem_cons]
  exact ⟨plain_dateText, by decide, plain_clockText⟩

/-- RFC 3339 text stands in a JSON string as it is. -/
theorem plain_formatRfc3339 : ∀ c ∈ t.formatRfc3339, Plain c :=
  List.forall_mem_append.mpr ⟨plain_formatSecond, plain_of_all rfl⟩

/-- So does the text of an instant as `formatTime` writes it. -/
theorem plain_format : ∀ c ∈ t.format, Plain c :=
  List.forall_mem_append.mpr ⟨plain_formatSecond, plain_suffix plain_fraction⟩

/-- The text of `Time.String` has nothing a JSON string would have to escape. -/
theorem plain_string : ∀ c ∈ t.string, Plain c := by
  simp only [string, List.forall_mem_append, List.forall_mem_cons]
  refine ⟨⟨⟨plain_dateText, by decide, plain_clockText⟩, ?_⟩, plain_of_all rfl⟩
  split
  · exact plain_of_all rfl
  · exact List.forall_mem_cons.mpr ⟨by decide, plain_fraction⟩

/-- The JSON of an instant is a value wherever a value may stand, when its year has four digits. -/
theorem scan_marshal (h : t.FourDigitYear) :
    ∃ text, t.marshal = some text ∧
      ∀ s : Scanner, s.AtValue ∨ s.AtKey → scan s text = ⟨.endValue, s.stack⟩ :=
  ⟨_, if_pos h, fun _ hs => scan_quoted hs plain_format⟩

end Time

namespace Alerting

/-- The fields that write a number. -/
def Field.isNumber : Field → Bool
  | .eventID | .serverID | .currentValue | .threshold => true
  | _ => false

/-- The texts that stand for themselves in a string literal. -/
def PlainText (text : String) : Prop := ∀ c ∈ text.toList, Plain c

instance (text : String) : Decidable (PlainText text) := List.decidableBAll Plain text.toList

/-- The names of the metrics have no character that JSON escapes. -/
theorem plainText_metric {metric : Metric} (h : validMetric metric = true) :
    PlainText metric.text := by
  cases metric with
  | other text => cases h
  | _ => decide

/-- The names of the statuses have no character that JSON escapes. -/
theorem plainText_status {status : Status} (h : validStatus status = true) :
    PlainText status.text := by
  cases status with
  | other text => cases h
  | _ => decide

section Data

variable {F : Type} [FloatText F]

/-- The data of a notification: known enumerations, finite numbers and a path. -/
structure Readable (data : TemplateData F) : Prop where
  metric : validMetric data.metric = true
  status : validStatus data.status = true
  currentValue : FiniteFloat.finite data.currentValue = true
  threshold : FiniteFloat.finite data.threshold = true
  detailURL : PlainText data.detailURL

/-- Readable data for a template: a raw server name is plain, and an encoded time has a year that
`MarshalJSON` takes. -/
structure Writable (template : Template) (data : TemplateData F) : Prop extends Readable data where
  serverName : Node.raw .serverName ∈ template → PlainText data.serverName
  startedAt : Node.json .startedAt ∈ template → data.startedAt.FourDigitYear
  endedAt : Node.json .endedAt ∈ template → ∀ t, data.endedAt = some t → t.FourDigitYear

variable {data : TemplateData F} {field : Field}

/-- A number field that is printed is a JSON number, if it is finite. -/
theorem number_fprintField (h : Readable data) (hnumber : field.isNumber = true) :
    Json.Number (fprintField data field) := by
  cases field with
  | eventID => exact number_int _
  | serverID => exact number_int _
  | currentValue => exact FloatText.number_fprint _ h.currentValue
  | threshold => exact FloatText.number_fprint _ h.threshold
  | _ => cases hnumber

/-- What a field prints may stand in a JSON string, for the server's name if the name may. -/
theorem plain_fprintField (h : Readable data) (hname : field = .serverName → PlainText data.serverName) :
    ∀ c ∈ fprintField data field, Plain c := by
  cases field with
  | serverName => exact hname rfl
  | metric => exact plainText_metric h.metric
  | status => exact plainText_status h.status
  | startedAt => exact Time.plain_string
  | startedAtFormat => exact Time.plain_formatRfc3339
  | endedAt =>
    show ∀ c ∈ data.endedAt.elim "<nil>".toList Time.string, Plain c
    cases data.endedAt with
    | none => exact plain_of_all rfl
    | some t => exact Time.plain_string
  | detailURL => exact h.detailURL
  | _ => exact (number_fprintField h rfl).plain

/-- A number field that is marshalled is a JSON number. -/
theorem number_marshalField (h : Readable data) (hnumber : field.isNumber = true) :
    ∃ text, marshalField data field = some text ∧ Json.Number text := by
  cases field with
  | eventID => exact ⟨_, rfl, number_int _⟩
  | serverID => exact ⟨_, rfl, number_int _⟩
  | currentValue => exact ⟨_, if_pos h.currentValue, FloatText.number_marshal _ h.currentValue⟩
  | threshold => exact ⟨_, if_pos h.threshold, FloatText.number_marshal _ h.threshold⟩
  | _ => cases hnumber

/-- An encoded text is a value or a key; an end time that is missing is a value only. -/
theorem scan_marshalField (h : Writable [.json field] data) (hnumber : field.isNumber = false) :
    ∃ text, marshalField data field = some text ∧
      ∀ s : Scanner, s.AtValue ∨ s.AtKey ∧ field ≠ .endedAt → scan s text = ⟨.endValue, s.stack⟩ := by
  have hdue : ∀ {s : Scanner}, s.AtValue ∨ s.AtKey ∧ field ≠ .endedAt → s.AtValue ∨ s.AtKey :=
    fun hs => hs.imp_right And.left
  cases field with
  | serverName => exact ⟨_, rfl, fun s hs => scan_quote (hdue hs) _⟩
  | metric => exact ⟨_, rfl, fun s hs => scan_quote (hdue hs) _⟩
  | status => exact ⟨_, rfl, fun s hs => scan_quote (hdue hs) _⟩
  | startedAt =>
    obtain ⟨text, htext, hscan⟩ := Time.scan_marshal (h.startedAt (List.mem_singleton_self _))
    exact ⟨text, htext, fun s hs => hscan s (hdue hs)⟩
  | startedAtFormat => exact ⟨_, rfl, fun s hs => scan_quote (hdue hs) _⟩
  | endedAt =>
    show ∃ text, data.endedAt.elim (some "null".toList) Time.marshal = some text ∧ _
    have hvalue : ∀ {s : Scanner}, s.AtValue ∨ s.AtKey ∧ Field.endedAt ≠ .endedAt → s.AtValue :=
      fun hs => hs.resolve_right fun hkey => hkey.2 rfl
    cases hended : data.endedAt with
    | none => exact ⟨_, rfl, fun s hs => scan_null (hvalue hs)⟩
    | some t =>
      obtain ⟨text, htext, hscan⟩ := Time.scan_marshal (h.endedAt (List.mem_singleton_self _) t hended)
      exact ⟨text, htext, fun s hs => hscan s (Or.inl (hvalue hs))⟩
  | detailURL => exact ⟨_, rfl, fun s hs => scan_quote (hdue hs) _⟩
  | _ => cases hnumber

end Data

/-! ## Where the fields may stand -/

/-- Where a node may stand. -/
def Node.Fits (s : Scanner) : Node → Prop
  | .text _ => True
  | .raw field => s.mode = .inString ∨ field.isNumber = true ∧ s.AtValue
  | .json field =>
    if field.isNumber then s.mode = .inString ∨ s.AtValue
    else s.AtValue ∨ s.AtKey ∧ field ≠ .endedAt

/-- The scanner behind a node: a field in a string literal leaves it open, elsewhere it is a
number or another value. -/
def Node.after (s : Scanner) : Node → Scanner
  | .text literal => scan s literal.toList
  | .raw field | .json field =>
    if s.mode = .inString then s
    else if field.isNumber then ⟨.num0, s.stack⟩
    else ⟨.endValue, s.stack⟩

/-- The node writes a number that the text behind it could go on with. -/
def Node.writesNumber (s : Scanner) : Node → Bool
  | .text _ => false
  | .raw field | .json field => field.isNumber && s.mode != .inString

/-- The template ends, or its next letter cannot go on with a number. -/
def Delimited : Template → Bool
  | [] => true
  | .text text :: _ => text.toList.head?.any fun c => !continues c
  | _ :: _ => false

/-- Every field stands in place. -/
def InPlace : Scanner → Template → Prop
  | _, [] => True
  | s, node :: nodes =>
    node.Fits s ∧ (node.writesNumber s = true → Delimited nodes = true) ∧
      InPlace (node.after s) nodes

instance (s : Scanner) (node : Node) : Decidable (node.Fits s) :=
  match node with
  | .text _ => isTrue trivial
  | .raw _ => inferInstanceAs (Decidable (_ ∨ _))
  | .json _ => inferInstanceAs (Decidable (ite _ _ _))

instance decidableInPlace : ∀ (s : Scanner) (template : Template), Decidable (InPlace s template)
  | _, [] => isTrue trivial
  | s, node :: nodes =>
    have := decidableInPlace (node.after s) nodes
    inferInstanceAs (Decidable (_ ∧ _ ∧ InPlace (node.after s) nodes))

/-- The scanner behind a template. -/
def follow (s : Scanner) (template : Template) : Scanner := template.foldl Node.after s

/-! ## The renderings of a template -/

/-- Behind the same value, up to how a number was written, with a text to come that tells. -/
def Behind (template : Template) (s s' : Scanner) : Prop :=
  s' = s ∨ s.mode.Numeric ∧ s'.mode.Numeric ∧ s'.stack = s.stack ∧ Delimited template = true

section Rendering

variable {F : Type} [FloatText F] {data : TemplateData F} {template : Template} {s s' : Scanner}

/-- The first letter behind a number makes the two scanners equal. -/
theorem Behind.step {c : Char} (h : Behind template s s') (hc : continues c = false) :
    Json.step s' c = Json.step s c := by
  rcases h with rfl | ⟨hs, hs', hstack, _⟩
  · rfl
  · have hleft := @step_numeric s'.stack c s'.mode hs' hc
    have hright := @step_numeric s.stack c s.mode hs hc
    exact hleft.trans ((congrArg (endValue · c) hstack).trans hright.symm)

/-- A text of the template leads scanners behind the same value to the same state. -/
theorem Behind.scan_text {text : String} (h : Behind (.text text :: template) s s') :
    scan s' text.toList = scan s text.toList := by
  rcases h with rfl | h
  · rfl
  · have hdelimited : text.toList.head?.any (fun c => !continues c) = true := h.2.2.2
    cases htext : text.toList with
    | nil => rw [htext] at hdelimited; cases hdelimited
    | cons c rest =>
      rw [htext] at hdelimited
      have hc : continues c = false := (Bool.not_eq_eq_eq_not ..).mp hdelimited
      rw [scan_cons, scan_cons, Behind.step (Or.inr h) hc]

/-- **What a field in place writes** takes the scanner behind the node. -/
theorem behind_executeNode {node : Node} {nodes : Template} (hready : Writable [node] data)
    (hfits : node.Fits s) (hdelimited : node.writesNumber s = true → Delimited nodes = true) :
    ∃ text, executeNode data node = some text ∧ Behind nodes (node.after s) (scan s text) := by
  -- a number where a value is due
  have hnumber : ∀ {text : List Char} {field : Field}, Json.Number text → field.isNumber = true →
      s.AtValue → (field.isNumber && s.mode != .inString) = true → Delimited nodes = true →
      Behind nodes (if s.mode = .inString then s else
        if field.isNumber then ⟨.num0, s.stack⟩ else ⟨.endValue, s.stack⟩) (scan s text) := by
    intro text field htext hfield hvalue hwrites hnodes
    obtain ⟨mode, hmode, hscan⟩ := scan_number hvalue htext
    have hstring : ¬ s.mode = .inString := by
      rcases hvalue with h | h <;> rw [h] <;> decide
    rw [if_neg hstring, if_pos hfield, hscan]
    exact Or.inr ⟨Or.inl rfl, hmode, rfl, hnodes⟩
  have hwrites : s.AtValue → ∀ {field : Field}, field.isNumber = true →
      (field.isNumber && s.mode != .inString) = true := by
    intro hvalue field hfield
    rw [hfield]
    rcases hvalue with h | h <;> rw [h] <;> decide
  -- plain text in a string literal
  have hstring : ∀ {text : List Char}, (∀ c ∈ text, Plain c) → s.mode = .inString →
      scan s text = s := by
    intro text htext hmode
    have hs : s = ⟨.inString, s.stack⟩ := by rw [← hmode]
    rw [hs]
    exact scan_plain htext
  cases node with
  | text text => exact ⟨_, rfl, Or.inl rfl⟩
  | raw field =>
    refine ⟨_, rfl, ?_⟩
    rcases hfits with hmode | ⟨hfield, hvalue⟩
    · refine Or.inl ?_
      have hplain : ∀ c ∈ fprintField data field, Plain c :=
        plain_fprintField hready.toReadable fun hname =>
          hready.serverName (by rw [hname]; exact List.mem_singleton_self _)
      rw [hstring hplain hmode]
      exact (if_pos hmode).symm
    · exact hnumber (number_fprintField hready.toReadable hfield) hfield hvalue
        (hwrites hvalue hfield) (hdelimited (hwrites hvalue hfield))
  | json field =>
    cases hfield : field.isNumber with
    | true =>
      obtain ⟨text, htext, hscan⟩ := number_marshalField hready.toReadable hfield
      refine ⟨text, htext, ?_⟩
      simp only [Node.Fits, hfield, if_true] at hfits
      rcases hfits with hmode | hvalue
      · refine Or.inl ?_
        rw [hstring hscan.plain hmode]
        exact (if_pos hmode).symm
      · exact hnumber hscan hfield hvalue (hwrites hvalue hfield)
          (hdelimited (hwrites hvalue hfield))
    | false =>
      obtain ⟨text, htext, hscan⟩ := scan_marshalField hready hfield
      simp only [Node.Fits, hfield, Bool.false_eq_true, if_false] at hfits
      refine ⟨text, htext, Or.inl ?_⟩
      have hmode : ¬ s.mode = .inString := by
        rcases hfits with (h | h) | ⟨h | h, _⟩ <;> rw [h] <;> decide
      rw [hscan s hfits]
      simp only [Node.after, hmode, hfield, Bool.false_eq_true, if_false]

/-- A part of a template writes what the whole does. -/
theorem Writable.of_subset {nodes : Template} (h : Writable template data) (hsub : nodes ⊆ template) :
    Writable nodes data where
  toReadable := h.toReadable
  serverName hmem := h.serverName (hsub hmem)
  startedAt hmem := h.startedAt (hsub hmem)
  endedAt hmem := h.endedAt (hsub hmem)

/-- **Fields in place** leave the scanner where the canonical texts do, once a blank has followed.
By induction on the template; between two nodes the scanners may differ in how a number was
written. -/
theorem scan_execute (hready : Writable template data) (h : InPlace s template)
    (hs : Behind template s s') :
    ∃ body, execute data template = some body ∧
      step (scan s' body) ' ' = step (follow s template) ' ' := by
  induction template generalizing s s' with
  | nil => exact ⟨[], rfl, hs.step rfl⟩
  | cons node nodes ih =>
    obtain ⟨hfits, hdelimited, hnodes⟩ := h
    have hnode : Writable [node] data :=
      hready.of_subset (List.cons_subset.mpr ⟨List.mem_cons_self, List.nil_subset _⟩)
    have hrest : Writable nodes data := hready.of_subset (List.subset_cons_self _ _)
    obtain ⟨text, htext, hbehind⟩ := behind_executeNode hnode hfits hdelimited
    have hscan : scan s' text = scan s text := by
      cases node with
      | text t =>
        cases htext
        exact hs.scan_text
      | raw field => rw [hs.resolve_right fun h => Bool.noConfusion h.2.2.2]
      | json field => rw [hs.resolve_right fun h => Bool.noConfusion h.2.2.2]
    obtain ⟨body, hbody, hstep⟩ := ih hrest hnodes hbehind
    refine ⟨text ++ body, ?_, ?_⟩
    · simp only [execute, htext, hbody]
      rfl
    · rw [scan_append, hscan]
      exact hstep

/-- A rendering is JSON or not whatever the data. -/
theorem renderTemplate_isOk {parse : String → Option Template} {templateText : String}
    (hparse : parse templateText = some template) (hready : Writable template data)
    (h : InPlace start template) :
    (renderTemplate parse templateText data).isOk =
      decide ((step (follow start template) ' ').mode = .endTop) := by
  obtain ⟨body, hbody, hstep⟩ := scan_execute hready h (Or.inl rfl)
  simp only [renderTemplate, hparse, hbody, valid, hstep]
  split
  next hvalid => rw [hvalid]; rfl
  next hvalid => rw [Bool.eq_false_of_not_eq_true hvalid]; rfl

private theorem executeNode_of_execute {body : List Char} (h : execute data template = some body)
    {node : Node} (hnode : node ∈ template) : ∃ text, executeNode data node = some text := by
  induction template generalizing body with
  | nil => exact absurd hnode List.not_mem_nil
  | cons first nodes ih =>
    simp only [execute, Option.bind_eq_bind, Option.bind_eq_some_iff] at h
    obtain ⟨text, htext, rest, hrest, _⟩ := h
    rcases List.mem_cons.mp hnode with rfl | hnode
    · exact ⟨text, htext⟩
    · exact ih hrest hnode

/-- What `RenderTemplate` returns was rendered from a template that parses, and is valid JSON. -/
theorem renderTemplate_ok {parse : String → Option Template} {templateText : String}
    {body : List Char} (h : renderTemplate parse templateText data = .ok body) :
    ∃ template, parse templateText = some template ∧ execute data template = some body ∧
      valid body = true := by
  unfold renderTemplate at h
  split at h
  next => cases h
  next template hparse =>
    split at h
    next => cases h
    next body' hbody =>
      split at h
      next hvalid =>
        cases h
        exact ⟨template, hparse, hbody, hvalid⟩
      next => cases h

/-- The sample is data for every template it renders. -/
theorem writable_sampleData {now : Time} {body : List Char}
    (h : execute (sampleData now : TemplateData F) template = some body) :
    Writable template (sampleData now : TemplateData F) where
  metric := rfl
  status := rfl
  currentValue := FiniteFloat.finite_ofNat 0 (by decide)
  threshold := FiniteFloat.finite_ofNat 0 (by decide)
  detailURL := fun c hc => absurd hc List.not_mem_nil
  serverName _ := by
    show PlainText "Webhook 测试"
    decide
  startedAt hmem := by
    obtain ⟨text, htext⟩ := executeNode_of_execute h hmem
    have hmarshal : now.marshal = some text := htext
    unfold Time.marshal at hmarshal
    split at hmarshal
    next hyear => exact hyear
    next => cases hmarshal
  endedAt _ t ht := by cases ht

/-- What the tables give back of an event: a known status, finite numbers and readable times. -/
structure Event.Persisted (event : Event F) : Prop where
  status : validStatus event.status = true
  currentValue : ∀ x, event.currentValue = some x → FiniteFloat.finite x = true
  threshold : ∀ x, event.threshold = some x → FiniteFloat.finite x = true
  startedAt : event.startedAt.FourDigitYear
  endedAt : ∀ t, event.endedAt = some t → t.FourDigitYear

/-- The data of a job is data for a template, but for a raw server name. -/
theorem writable_enqueueDelivery {webhook : Except RepositoryError WebhookConfig} {event : Event F}
    {snapshot : Live.Snapshot F} {rule : Rule F} {job : DeliveryJob F} (hevent : event.Persisted)
    (hmetric : validMetric rule.metric = true)
    (hthreshold : FiniteFloat.finite rule.threshold = true)
    (hjob : enqueueDelivery webhook event snapshot rule = some job)
    (hname : Node.raw .serverName ∈ template → PlainText snapshot.serverName) :
    Writable template job.data := by
  have hvalue : ∀ {x : Option F} {y : F}, (∀ z, x = some z → FiniteFloat.finite z = true) →
      FiniteFloat.finite y = true → FiniteFloat.finite (x.getD y) = true := by
    intro x y hx hy
    cases x with
    | none => exact hy
    | some z => exact hx z rfl
  have hpath : PlainText ("/servers/" ++ toString event.serverID) := by
    intro c hc
    rw [String.toList_append] at hc
    have hservers : PlainText "/servers/" := by decide
    rcases List.mem_append.mp hc with hc | hc
    · exact hservers c hc
    · exact (number_int event.serverID).plain c hc
  unfold enqueueDelivery at hjob
  split at hjob
  next => cases hjob
  next config =>
    split at hjob
    next =>
      cases hjob
      exact
        { metric := hmetric, status := hevent.status
          currentValue := hvalue hevent.currentValue (FiniteFloat.finite_ofNat 0 (by decide))
          threshold := hvalue hevent.threshold hthreshold
          detailURL := hpath, serverName := hname
          startedAt := fun _ => hevent.startedAt, endedAt := fun _ => hevent.endedAt }
    next => cases hjob

end Rendering

/-- **An accepted template whose fields stand in place** renders every notification to valid JSON.
The sample data that the check renders and the data of the notification leave the scanner in one
state, so what is accepted once is accepted always. The name of the server has to be plain text
where the template writes it raw. -/
theorem renders_of_accepted {F : Type} [FloatText F] {parse : String → Option Template}
    {parseURL : String → Option Endpoint} {config : WebhookConfig} {now : Time}
    (haccepted : validateWebhook F parse parseURL config now = true)
    (hplace : ∀ template, parse config.bodyTemplate = some template → InPlace start template)
    {event : Event F} {snapshot : Live.Snapshot F} {rule : Rule F} (hevent : event.Persisted)
    (hmetric : validMetric rule.metric = true)
    (hthreshold : FiniteFloat.finite rule.threshold = true)
    (hname : ∀ template, parse config.bodyTemplate = some template →
      Node.raw .serverName ∈ template → PlainText snapshot.serverName)
    {job : DeliveryJob F} (hjob : enqueueDelivery (.ok config) event snapshot rule = some job) :
    ∃ body, renderTemplate parse job.config.bodyTemplate job.data = .ok body ∧
      valid body = true := by
  have hconfig : job.config = config := by
    simp only [enqueueDelivery] at hjob
    split at hjob
    · cases hjob; rfl
    · cases hjob
  have hsample := (Bool.and_eq_true_iff.mp haccepted).2
  cases hrender : renderTemplate parse config.bodyTemplate (sampleData now : TemplateData F) with
  | error e => rw [hrender] at hsample; cases hsample
  | ok sample =>
    obtain ⟨template, hparse, hexecute, hvalid⟩ := renderTemplate_ok hrender
    have hin := hplace template hparse
    have hdata : Writable template job.data :=
      writable_enqueueDelivery hevent hmetric hthreshold hjob (hname template hparse)
    have hok : (renderTemplate parse job.config.bodyTemplate job.data).isOk = true := by
      rw [hconfig, renderTemplate_isOk hparse hdata hin,
        ← renderTemplate_isOk hparse (writable_sampleData hexecute) hin]
      exact hsample
    cases hbody : renderTemplate parse job.config.bodyTemplate job.data with
    | error e => rw [hbody] at hok; cases hok
    | ok body =>
      obtain ⟨_, _, _, hjson⟩ := renderTemplate_ok hbody
      exact ⟨body, rfl, hjson⟩

/-! ## The default template, and a raw name -/

/-- `DefaultBodyTemplate`, parsed. -/
def defaultTemplate : Template :=
  [.text "\x7b\n  \"server\": ", .json .serverName, .text ",\n  \"metric\": \"", .raw .metric,
    .text "\",\n  \"status\": \"", .raw .status, .text "\",\n  \"currentValue\": ",
    .raw .currentValue, .text ",\n  \"threshold\": ", .raw .threshold,
    .text ",\n  \"startedAt\": \"", .raw .startedAtFormat, .text "\",\n  \"detailUrl\": ",
    .json .detailURL, .text "\n\x7d"]

/-- `DefaultBodyTemplate` stands in place and has no raw name. -/
example : InPlace start defaultTemplate ∧ Node.raw .serverName ∉ defaultTemplate := by
  decide +kernel

/-- A template that quotes the server name itself. -/
def rawNameText : String := "\x7b\"server\": \"\x7b\x7b.ServerName\x7d\x7d\"\x7d"

/-- The two templates, parsed. -/
def parseKnown (text : String) : Option Template :=
  if text = defaultBodyTemplate then some defaultTemplate
  else if text = rawNameText then
    some [.text "\x7b\"server\": \"", .raw .serverName, .text "\"\x7d"]
  else none

def parseKnownURL (url : String) : Option Endpoint :=
  if url = "https://example.test/hook" then some ⟨"https", "example.test"⟩ else none

def hookOf (bodyTemplate : String) : WebhookConfig :=
  { url := "https://example.test/hook", headers := ∅, bodyTemplate, enabled := true
    createdAt := .zero, updatedAt := .zero }

def firingEvent : Event Exact :=
  { id := 1, ruleID := 1, serverID := 1, status := .firing, currentValue := some (.fin 85)
    threshold := some (.fin 80), startedAt := ⟨0⟩, endedAt := none, createdAt := ⟨0⟩ }

private theorem persisted_firingEvent : firingEvent.Persisted where
  status := rfl
  currentValue x h := by cases h; rfl
  threshold x h := by cases h; rfl
  startedAt := by decide +kernel
  endedAt t h := by cases h

def cpuRule : Rule Exact :=
  { id := 1, serverID := 1, metric := .cpuUsage, operator := .greaterThan, threshold := .fin 80
    durationSeconds := 300, repeatSeconds := 0, enabled := true, createdAt := ⟨0⟩
    updatedAt := ⟨0⟩ }

/-- A snapshot of a server with a quoted word in its name. -/
def namedSnapshot : Live.Snapshot Exact :=
  { serverID := 1, serverName := "home\"lab", online := true, lastReceivedAt := ⟨0⟩, sourceIP := ""
    report := Protocol.AgentReport.ofCPU (.fin 85) }

/-- The default template renders for a firing event. -/
theorem renders_default :
    ∃ job, enqueueDelivery (.ok (hookOf defaultBodyTemplate)) firingEvent namedSnapshot cpuRule =
        some job ∧
      ∃ body, renderTemplate parseKnown job.config.bodyTemplate job.data = .ok body ∧
        valid body = true := by
  have hparse : ∀ template, parseKnown (hookOf defaultBodyTemplate).bodyTemplate = some template →
      template = defaultTemplate := fun template h => by
    have hknown : parseKnown (hookOf defaultBodyTemplate).bodyTemplate = some defaultTemplate := by
      decide +kernel
    exact (Option.some.inj (hknown.symm.trans h)).symm
  have haccepted : validateWebhook Exact parseKnown parseKnownURL (hookOf defaultBodyTemplate) ⟨0⟩ =
      true := by decide +kernel
  refine ⟨_, rfl, renders_of_accepted haccepted (fun template h => ?_) persisted_firingEvent rfl rfl
    (fun template h hmem => ?_) rfl⟩
  · rw [hparse template h]
    decide +kernel
  · rw [hparse template h] at hmem
    exact absurd hmem (by decide)

/-- The sample's name has no quotes, so the raw name is accepted; a name with quotes is refused at
every delivery. -/
theorem rawName_accepted_refused :
    validateWebhook Exact parseKnown parseKnownURL (hookOf rawNameText) ⟨0⟩ = true ∧
      firingEvent.Persisted ∧
      ∃ job, enqueueDelivery (.ok (hookOf rawNameText)) firingEvent namedSnapshot cpuRule =
          some job ∧
        renderTemplate parseKnown job.config.bodyTemplate job.data = .error .invalidJSON :=
  ⟨by decide +kernel, persisted_firingEvent, _, rfl, by decide +kernel⟩

end Alerting

end TinyProbe
