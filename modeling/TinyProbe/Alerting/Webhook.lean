import TinyProbe.Alerting.Placement
import TinyProbe.Base.Text
import TinyProbe.Lib.Run

/-!
# The webhook configuration

`GetWebhook` answers the stored configuration with the values of secret headers masked, and
`PutWebhook` puts the stored value back for each masked one, under the same name. Reading and
writing are two statements, between which other requests come.

An edit of the answer of one request keeps what it leaves as received (`webhook_roundTrip`). Over
runs, a mask that comes back under a name that is not stored is stored as it is
(`lookup_restoreMaskedHeaders_eq_mask_iff`), so the mask stays out of the secret headers as long as no
request renames one (`mask_never_stored`).
-/

namespace TinyProbe.Alerting

open TinyProbe.Run

/-- `maskedHeaderValue`. -/
def maskedHeaderValue : String := "••••••"

/-- `strings.Contains`. -/
def contains (text part : List Char) : Bool := text.tails.any fun rest => part.isPrefixOf rest

/-- `secretHeader`. -/
def secretHeader (name : String) : Bool :=
  let lower := name.toList.map toLower
  contains lower "authorization".toList || contains lower "token".toList ||
    contains lower "secret".toList || contains lower "key".toList

/-- `defaultWebhookConfig`. -/
def defaultWebhookConfig : WebhookConfig :=
  { url := "", headers := ∅, bodyTemplate := defaultBodyTemplate, enabled := false
    createdAt := .zero, updatedAt := .zero }

/-- `maskWebhookHeaders`. -/
def maskWebhookHeaders (config : WebhookConfig) : WebhookConfig :=
  { config with
    headers := config.headers.mapEntries fun name value =>
      if secretHeader name then maskedHeaderValue else value }

/-- `restoreMaskedHeaders`. -/
def restoreMaskedHeaders (input existing : Map String String) : Map String String :=
  input.mapEntries fun name value =>
    if value = maskedHeaderValue ∧ secretHeader name then
      (AList.lookup name existing).getD value
    else value

namespace Repository

/-- `GetWebhook`. -/
def getWebhook (stored : Option WebhookConfig) (fails : Bool) :
    Except RepositoryError WebhookConfig :=
  if fails then .error .failed else stored.elim (.error .notFound) .ok

/-- `UpsertWebhook`. -/
def upsertWebhook (stored : Option WebhookConfig) (config : WebhookConfig) (now : Time)
    (fails : Bool) : Except RepositoryError WebhookConfig × Option WebhookConfig :=
  if config.url = "" ∨ config.bodyTemplate = "" then (.error .invalidInput, stored)
  else if fails then (.error .failed, stored)
  else
    let row := { config with createdAt := stored.elim now (·.createdAt), updatedAt := now }
    (.ok row, some row)

end Repository

/-- The configuration a handler starts from: without a row the default one. -/
def currentWebhook (stored : Option WebhookConfig) (fails : Bool) :
    Except RepositoryError WebhookConfig :=
  match Repository.getWebhook stored fails with
  | .error .notFound => .ok defaultWebhookConfig
  | answer => answer

/-- The stored headers. -/
def storedHeaders (stored : Option WebhookConfig) : Map String String :=
  (stored.getD defaultWebhookConfig).headers

namespace Handler

/-- `GetWebhook`. -/
def getWebhook (stored : Option WebhookConfig) (fails : Bool) :
    Except RepositoryError WebhookConfig :=
  (currentWebhook stored fails).map maskWebhookHeaders

section Put

variable (F : Type) [FloatText F] (parse : String → Option Template)
  (parseURL : String → Option Endpoint)

/-- `PutWebhook`, behind its reading of the current configuration. -/
def storeWebhook (stored : Option WebhookConfig) (current input : WebhookConfig) (now : Time)
    (fails : Bool) : Except RepositoryError WebhookConfig × Option WebhookConfig :=
  let next := { input with headers := restoreMaskedHeaders input.headers current.headers }
  if validateWebhook F parse parseURL next now = false then (.error .invalidInput, stored)
  else
    let (answer, stored) := Repository.upsertWebhook stored next now fails
    (answer.map maskWebhookHeaders, stored)

/-- `PutWebhook`, with nothing between its two statements. A body that does not decode is refused
before the first one. -/
def putWebhook (stored : Option WebhookConfig) (body : Option WebhookConfig) (now : Time)
    (readFails fails : Bool) : Except RepositoryError WebhookConfig × Option WebhookConfig :=
  match body with
  | none => (.error .invalidInput, stored)
  | some input =>
    match currentWebhook stored readFails with
    | .error err => (.error err, stored)
    | .ok current => storeWebhook F parse parseURL stored current input now fails

end Put

end Handler

/-! ## Masking and restoring -/

section Mask

variable {config : WebhookConfig} {input existing : Map String String} {name : String}

@[simp] theorem lookup_maskWebhookHeaders :
    AList.lookup name (maskWebhookHeaders config).headers =
      (AList.lookup name config.headers).map fun value =>
        if secretHeader name then maskedHeaderValue else value :=
  Map.lookup_mapEntries _ _ _

@[simp] theorem lookup_restoreMaskedHeaders :
    AList.lookup name (restoreMaskedHeaders input existing) =
      (AList.lookup name input).map fun value =>
        if value = maskedHeaderValue ∧ secretHeader name then
          (AList.lookup name existing).getD value
        else value :=
  Map.lookup_mapEntries _ _ _

/-- **An entry left as received** is restored to what it was. -/
theorem lookup_restore_received
    (h : AList.lookup name input = AList.lookup name (maskWebhookHeaders config).headers) :
    AList.lookup name (restoreMaskedHeaders input config.headers) =
      AList.lookup name config.headers := by
  rw [lookup_restoreMaskedHeaders, h, lookup_maskWebhookHeaders]
  cases hvalue : AList.lookup name config.headers with
  | none => rfl
  | some value =>
    cases hsecret : secretHeader name with
    | true => simp only [Option.map_some, if_true, and_self, Option.getD_some]
    | false => simp only [Option.map_some, Bool.false_eq_true, if_false, and_false]

/-- **An entry the client has given** is stored as it is. -/
theorem lookup_restore_given {value : String} (h : AList.lookup name input = some value)
    (hgiven : secretHeader name = false ∨ value ≠ maskedHeaderValue) :
    AList.lookup name (restoreMaskedHeaders input existing) = some value := by
  have hmask : ¬ (value = maskedHeaderValue ∧ secretHeader name = true) := by
    rintro ⟨hvalue, hsecret⟩
    rcases hgiven with hgiven | hgiven
    · rw [hgiven] at hsecret
      cases hsecret
    · exact hgiven hvalue
  rw [lookup_restoreMaskedHeaders, h, Option.map_some, if_neg hmask]

/-- **The mask is restored to itself** where there is nothing to restore, or nothing else. -/
theorem lookup_restoreMaskedHeaders_eq_mask_iff (hsecret : secretHeader name = true) :
    AList.lookup name (restoreMaskedHeaders input existing) = some maskedHeaderValue ↔
      AList.lookup name input = some maskedHeaderValue ∧
        (AList.lookup name existing = none ∨
          AList.lookup name existing = some maskedHeaderValue) := by
  rw [lookup_restoreMaskedHeaders]
  cases AList.lookup name input with
  | none => simp only [Option.map_none, reduceCtorEq, false_and]
  | some value =>
    by_cases hvalue : value = maskedHeaderValue
    · cases AList.lookup name existing with
      | none => simp only [hvalue, hsecret, and_self, if_true, Option.map_some, Option.getD_none, true_or]
      | some old =>
        simp only [hvalue, hsecret, and_self, if_true, Option.map_some, Option.getD_some,
          Option.some.injEq, reduceCtorEq, false_or, true_and]
    · simp only [hvalue, false_and, if_false, Option.map_some, Option.some.injEq]

theorem mem_restoreMaskedHeaders :
    name ∈ restoreMaskedHeaders input existing ↔ name ∈ input := by
  rw [← AList.lookup_isSome, ← AList.lookup_isSome, lookup_restoreMaskedHeaders,
    Option.isSome_map]

end Mask

/-! ## An edit of the answer -/

/-- The answers of `GetWebhook` are equal as JSON: the headers are compared as a map. -/
structure SameConfig (config config' : WebhookConfig) : Prop where
  url : config.url = config'.url
  bodyTemplate : config.bodyTemplate = config'.bodyTemplate
  enabled : config.enabled = config'.enabled
  createdAt : config.createdAt = config'.createdAt
  updatedAt : config.updatedAt = config'.updatedAt
  headers : ∀ name, AList.lookup name config.headers = AList.lookup name config'.headers

/-- The configurations differ in the values of secret headers only. -/
structure SameButSecrets (config config' : WebhookConfig) : Prop where
  url : config.url = config'.url
  bodyTemplate : config.bodyTemplate = config'.bodyTemplate
  enabled : config.enabled = config'.enabled
  createdAt : config.createdAt = config'.createdAt
  updatedAt : config.updatedAt = config'.updatedAt
  names : ∀ name, name ∈ config.headers ↔ name ∈ config'.headers
  headers : ∀ name, secretHeader name = false →
    AList.lookup name config.headers = AList.lookup name config'.headers

/-- **Masked configurations do not tell secrets apart.** -/
theorem sameConfig_maskWebhookHeaders {config config' : WebhookConfig}
    (h : SameButSecrets config config') :
    SameConfig (maskWebhookHeaders config) (maskWebhookHeaders config') where
  url := h.url
  bodyTemplate := h.bodyTemplate
  enabled := h.enabled
  createdAt := h.createdAt
  updatedAt := h.updatedAt
  headers name := by
    rw [lookup_maskWebhookHeaders, lookup_maskWebhookHeaders]
    cases hsecret : secretHeader name with
    | false => rw [h.headers name hsecret]
    | true =>
      have hnames := h.names name
      rw [← AList.lookup_isSome, ← AList.lookup_isSome] at hnames
      cases hleft : AList.lookup name config.headers with
      | none =>
        rw [hleft] at hnames
        cases hright : AList.lookup name config'.headers with
        | none => rfl
        | some value => rw [hright] at hnames; exact absurd (hnames.mpr rfl) (by decide)
      | some value =>
        rw [hleft] at hnames
        obtain ⟨value', hright⟩ := Option.isSome_iff_exists.mp (hnames.mp rfl)
        rw [hright]
        rfl

theorem currentWebhook_ok {stored : Option WebhookConfig} {fails : Bool} {current : WebhookConfig}
    (h : currentWebhook stored fails = .ok current) :
    current = stored.getD defaultWebhookConfig := by
  unfold currentWebhook Repository.getWebhook at h
  cases fails with
  | true => cases h
  | false => cases stored <;> cases h <;> rfl

section Put

variable (F : Type) [FloatText F] (parse : String → Option Template)
  (parseURL : String → Option Endpoint) (stored : Option WebhookConfig)

/-- A PUT gets as far as the row: the checks of the handler and of `UpsertWebhook` pass, and the
statement does not fail. -/
def Handler.stores (current input : WebhookConfig) (now : Time) (fails : Bool) : Bool :=
  let next := { input with headers := restoreMaskedHeaders input.headers current.headers }
  validateWebhook F parse parseURL next now && next.url != "" && next.bodyTemplate != "" && !fails

/-- **What a write does**: it stores the restored headers and answers them masked, or it does
nothing. -/
theorem Handler.storeWebhook_cases (current input : WebhookConfig) (now : Time) (fails : Bool) :
    (stores F parse parseURL current input now fails = false ∧
      ∃ err, storeWebhook F parse parseURL stored current input now fails = (.error err, stored)) ∨
    (stores F parse parseURL current input now fails = true ∧
      ∃ row, row.headers = restoreMaskedHeaders input.headers current.headers ∧
        storeWebhook F parse parseURL stored current input now fails =
          (.ok (maskWebhookHeaders row), some row)) := by
  unfold storeWebhook stores
  dsimp only
  split
  next hvalid => exact Or.inl ⟨by rw [hvalid]; rfl, _, rfl⟩
  next hvalid =>
    rw [Bool.not_eq_false] at hvalid
    unfold Repository.upsertWebhook
    split
    next hempty =>
      refine Or.inl ⟨?_, _, rfl⟩
      rcases hempty with hurl | htemplate
      · have hurl : input.url = "" := hurl
        rw [hurl, bne_self_eq_false, Bool.and_false, Bool.false_and, Bool.false_and]
      · have htemplate : input.bodyTemplate = "" := htemplate
        rw [htemplate, bne_self_eq_false, Bool.and_false, Bool.false_and]
    next hnonempty =>
      obtain ⟨hurl, htemplate⟩ := not_or.mp hnonempty
      split
      next hfails => exact Or.inl ⟨by rw [hfails, Bool.not_true, Bool.and_false], _, rfl⟩
      next hfails =>
        refine Or.inr ⟨?_, _, rfl, rfl⟩
        rw [hvalid, bne_iff_ne.mpr hurl, bne_iff_ne.mpr htemplate, Bool.not_eq_true] at *
        rw [hfails]
        rfl

variable {F parse parseURL stored}

/-- A PUT without an error stores the headers of its body, restored. -/
theorem Handler.putWebhook_ok {input answer : WebhookConfig} {stored' : Option WebhookConfig}
    {now : Time} {readFails fails : Bool}
    (h : putWebhook F parse parseURL stored (some input) now readFails fails =
      (.ok answer, stored')) :
    storedHeaders stored' = restoreMaskedHeaders input.headers (storedHeaders stored) := by
  unfold putWebhook at h
  cases hcurrent : currentWebhook stored readFails with
  | error err => rw [hcurrent] at h; cases h
  | ok current =>
    rw [hcurrent] at h
    rcases storeWebhook_cases F parse parseURL stored current input now fails with
      ⟨_, err, hstore⟩ | ⟨_, row, hrow, hstore⟩
    · have hanswer := congrArg Prod.fst (hstore.symm.trans h)
      cases hanswer
    · have hstored := congrArg Prod.snd (hstore.symm.trans h)
      cases hstored
      show row.headers = _
      rw [hrow, currentWebhook_ok hcurrent]
      rfl

end Put

/-- **Masking round-trips.** A PUT that succeeds stores the headers it submits and no others: one
submitted as GET has shown it keeps its stored value, one that is not secret or not masked is stored
as submitted, and a configuration sent back as it was shown changes no header. What GET shows says
nothing of the secrets: another configuration that differs in them alone is shown the same. -/
theorem webhook_roundTrip {F : Type} [FloatText F] {parse : String → Option Template}
    {parseURL : String → Option Endpoint} {stored stored' : Option WebhookConfig}
    {shown input answer : WebhookConfig} {now : Time} {readFails putReadFails fails : Bool}
    (hshown : Handler.getWebhook stored readFails = .ok shown)
    (hput : Handler.putWebhook F parse parseURL stored (some input) now putReadFails fails =
      (.ok answer, stored')) :
    (∀ name, name ∈ storedHeaders stored' ↔ name ∈ input.headers) ∧
      (∀ name, AList.lookup name input.headers = AList.lookup name shown.headers →
        AList.lookup name (storedHeaders stored') = AList.lookup name (storedHeaders stored)) ∧
      (∀ name value, AList.lookup name input.headers = some value →
        secretHeader name = false ∨ value ≠ maskedHeaderValue →
          AList.lookup name (storedHeaders stored') = some value) ∧
      (SameConfig input shown → ∀ name,
        AList.lookup name (storedHeaders stored') = AList.lookup name (storedHeaders stored)) ∧
      ∀ config, SameButSecrets (stored.getD defaultWebhookConfig) config →
        ∃ shown', Handler.getWebhook (some config) false = .ok shown' ∧ SameConfig shown shown' := by
  have hstored := Handler.putWebhook_ok hput
  have hmasked : shown = maskWebhookHeaders (stored.getD defaultWebhookConfig) := by
    unfold Handler.getWebhook at hshown
    cases hcurrent : currentWebhook stored readFails with
    | error err => rw [hcurrent] at hshown; cases hshown
    | ok current =>
      rw [hcurrent] at hshown
      cases hshown
      rw [currentWebhook_ok hcurrent]
  have hreceived : ∀ name, AList.lookup name input.headers = AList.lookup name shown.headers →
      AList.lookup name (storedHeaders stored') = AList.lookup name (storedHeaders stored) := by
    intro name h
    rw [hmasked] at h
    rw [hstored]
    exact lookup_restore_received h
  refine ⟨fun name => ?_, hreceived, fun name value hvalue hgiven => ?_, fun h name => ?_,
    fun config h => ?_⟩
  · rw [hstored]
    exact mem_restoreMaskedHeaders
  · rw [hstored]
    exact lookup_restore_given hvalue hgiven
  · exact hreceived name (h.headers name)
  · exact ⟨_, rfl, hmasked ▸ sameConfig_maskWebhookHeaders h⟩

/-- A configuration with a credential and a header that is no secret. -/
def storedHook : WebhookConfig :=
  { hookOf defaultBodyTemplate with
    headers := (AList.singleton "Authorization" "Bearer 1").insert "X-Trace" "on" }

/-- The answer for it, with the header that is no secret changed. -/
def editedHook : WebhookConfig :=
  { maskWebhookHeaders storedHook with
    headers := (maskWebhookHeaders storedHook).headers.insert "X-Trace" maskedHeaderValue }

/-- What is stored for it. -/
def restoredHook : WebhookConfig :=
  { storedHook with
    headers := storedHook.headers.insert "X-Trace" maskedHeaderValue, updatedAt := ⟨0⟩ }

theorem webhook_roundTrip_edited :
    Handler.putWebhook Exact parseKnown parseKnownURL (some storedHook) (some editedHook) ⟨0⟩ false
        false = (.ok (maskWebhookHeaders restoredHook), some restoredHook) ∧
      AList.lookup "Authorization" restoredHook.headers = some "Bearer 1" ∧
      AList.lookup "X-Trace" restoredHook.headers = some maskedHeaderValue := by
  have hput : Handler.putWebhook Exact parseKnown parseKnownURL (some storedHook)
      (some editedHook) ⟨0⟩ false false =
        (.ok (maskWebhookHeaders restoredHook), some restoredHook) := by decide +kernel
  have hshown : Handler.getWebhook (some storedHook) false = .ok (maskWebhookHeaders storedHook) :=
    rfl
  obtain ⟨_, hreceived, hgiven, _⟩ := webhook_roundTrip hshown hput
  refine ⟨hput, ?_, ?_⟩
  · exact (hreceived "Authorization" (by decide +kernel)).trans (by decide +kernel)
  · exact hgiven "X-Trace" maskedHeaderValue (by decide +kernel) (Or.inl (by decide +kernel))

/-! ## Runs -/

/-- A PUT under way: its body, and the configuration it has read. -/
structure PutRequest where
  input : WebhookConfig
  current : Option WebhookConfig

/-- The stored row, the PUT requests under way, and the configurations clients have received. -/
structure Panel where
  stored : Option WebhookConfig
  requests : Map Nat PutRequest
  received : List WebhookConfig

inductive Panel.Action where
  | get (fails : Bool)
  /-- A PUT request with a body that decodes. -/
  | put (i : Nat) (input : WebhookConfig)
  | read (i : Nat) (fails : Bool)
  | write (i : Nat) (now : Time) (fails : Bool)

namespace Panel

def initial : Panel := { stored := none, requests := ∅, received := [] }

def request? (s : Panel) (i : Nat) : Option PutRequest := AList.lookup i s.requests

/-- The client receives an answer, unless it is an error. -/
def receive (s : Panel) : Except RepositoryError WebhookConfig → Panel
  | .error _ => s
  | .ok config => { s with received := config :: s.received }

/-- A write, which ends its request. -/
def write (F : Type) [FloatText F] (parse : String → Option Template)
    (parseURL : String → Option Endpoint) (s : Panel) (i : Nat) (current input : WebhookConfig)
    (now : Time) (fails : Bool) : Panel :=
  let (answer, stored) := Handler.storeWebhook F parse parseURL s.stored current input now fails
  ({ s with stored, requests := s.requests.erase i }).receive answer

def step (F : Type) [FloatText F] (parse : String → Option Template)
    (parseURL : String → Option Endpoint) (s : Panel) : Action → Panel
  | .get fails => s.receive (Handler.getWebhook s.stored fails)
  | .put i input =>
    if (s.request? i).isSome then s
    else { s with requests := s.requests.insert i { input, current := none } }
  | .read i fails =>
    match s.request? i with
    | some { input, current := none } =>
      match currentWebhook s.stored fails with
      | .error _ => { s with requests := s.requests.erase i }
      | .ok current =>
        { s with requests := s.requests.insert i { input, current := some current } }
    | _ => s
  | .write i now fails =>
    match s.request? i with
    | some { input, current := some current } => s.write F parse parseURL i current input now fails
    | _ => s

/-- The names of secret headers a body has with the mask. -/
def maskedNames (headers : Map String String) : List String :=
  (headers.entries.filter fun e => e.2 == maskedHeaderValue && secretHeader e.1).map (·.1)

/-- A client sends the mask only if it has received it. -/
def Kept (s : Panel) : Action → Prop
  | .put _ input => (∃ e ∈ input.headers.entries, e.2 = maskedHeaderValue) →
      ∃ config ∈ s.received, ∃ e ∈ config.headers.entries, e.2 = maskedHeaderValue
  | _ => True

/-- A PUT that gets as far as the row has read a stored value for every secret header it has with
the mask. -/
def Restores (F : Type) [FloatText F] (parse : String → Option Template)
    (parseURL : String → Option Endpoint) (s : Panel) : Action → Prop
  | .write i now fails => ∀ request ∈ s.request? i, ∀ current ∈ request.current,
      Handler.stores F parse parseURL current request.input now fails = true →
        ∀ name ∈ maskedNames request.input.headers, name ∈ current.headers
  | _ => True

/-- No secret header has the mask for a value. -/
def NoMask (headers : Map String String) : Prop :=
  ∀ name, secretHeader name = true → AList.lookup name headers ≠ some maskedHeaderValue

/-- What is stored and what the requests have read is without the mask. -/
structure Inv (s : Panel) : Prop where
  stored : NoMask (storedHeaders s.stored)
  requests : ∀ i input current, s.request? i = some { input, current := some current } →
    NoMask current.headers

theorem mem_maskedNames {headers : Map String String} {name : String} :
    name ∈ maskedNames headers ↔
      secretHeader name = true ∧ AList.lookup name headers = some maskedHeaderValue := by
  constructor
  · intro h
    obtain ⟨⟨name', value⟩, hmem, rfl⟩ := List.mem_map.mp h
    obtain ⟨hentry, hmasked⟩ := List.mem_filter.mp hmem
    rw [Bool.and_eq_true, beq_iff_eq] at hmasked
    obtain ⟨rfl, hsecret⟩ := hmasked
    exact ⟨hsecret, Map.mem_entries_iff.mp hentry⟩
  · rintro ⟨hsecret, h⟩
    refine List.mem_map.mpr ⟨⟨name, maskedHeaderValue⟩, List.mem_filter.mpr
      ⟨Map.mem_entries_iff.mpr h, ?_⟩, rfl⟩
    rw [hsecret, beq_self_eq_true, Bool.and_self]

/-- Restoring from headers without the mask that have all masked names leaves no mask. -/
theorem NoMask.restore {input existing : Map String String} (h : NoMask existing)
    (hnames : ∀ name ∈ maskedNames input, name ∈ existing) :
    NoMask (restoreMaskedHeaders input existing) := by
  intro name hsecret hmask
  obtain ⟨hinput, hexisting⟩ := (lookup_restoreMaskedHeaders_eq_mask_iff hsecret).mp hmask
  rcases hexisting with hnone | hexisting
  · exact AList.lookup_eq_none.mp hnone (hnames name (mem_maskedNames.mpr ⟨hsecret, hinput⟩))
  · exact h name hsecret hexisting

/-- A masked name that the existing headers do not have keeps the mask. -/
theorem NoMask.of_restore {input existing : Map String String}
    (h : NoMask (restoreMaskedHeaders input existing)) {name : String}
    (hname : name ∈ maskedNames input) : name ∈ existing := by
  obtain ⟨hsecret, hinput⟩ := mem_maskedNames.mp hname
  by_contra hexisting
  exact h name hsecret ((lookup_restoreMaskedHeaders_eq_mask_iff hsecret).mpr
    ⟨hinput, Or.inl (AList.lookup_eq_none.mpr hexisting)⟩)

section Steps

variable {F : Type} [FloatText F] {parse : String → Option Template}
  {parseURL : String → Option Endpoint} {s : Panel}

@[simp] theorem receive_stored (answer : Except RepositoryError WebhookConfig) :
    (s.receive answer).stored = s.stored := by cases answer <;> rfl

@[simp] theorem receive_requests (answer : Except RepositoryError WebhookConfig) :
    (s.receive answer).requests = s.requests := by cases answer <;> rfl

/-- A step that keeps the row and has no new request with a reading keeps the invariant. -/
theorem Inv.of_requests {s' : Panel} (h : Inv s) (hstored : s'.stored = s.stored)
    (hrequests : ∀ i input current, s'.request? i = some { input, current := some current } →
      s.request? i = some { input, current := some current }) : Inv s' where
  stored := hstored ▸ h.stored
  requests i input current hi := h.requests i input current (hrequests i input current hi)

/-- An ended request takes nothing from the others. -/
theorem request?_erase {i j : Nat} {request : PutRequest}
    (h : AList.lookup j (s.requests.erase i) = some request) : s.request? j = some request := by
  rw [Map.lookup_erase] at h
  split at h
  · cases h
  · exact h

/-- **What is stored after a write that gets as far as the row**. -/
theorem write_stored {i : Nat} {input current : WebhookConfig} {now : Time} {fails : Bool}
    (hstores : Handler.stores F parse parseURL current input now fails = true) :
    storedHeaders (s.write F parse parseURL i current input now fails).stored =
      restoreMaskedHeaders input.headers current.headers := by
  rcases Handler.storeWebhook_cases F parse parseURL s.stored current input now fails with
    ⟨hnot, _⟩ | ⟨_, row, hrow, hstore⟩
  · cases hnot.symm.trans hstores
  · simp only [write, hstore]
    exact hrow

theorem inv_write {i : Nat} {input current : WebhookConfig} {now : Time} {fails : Bool}
    (hok : Restores F parse parseURL s (.write i now fails)) (h : Inv s)
    (hi : s.request? i = some { input, current := some current }) :
    Inv (s.write F parse parseURL i current input now fails) := by
  have hcurrent := h.requests i input current hi
  have hrequests : ∀ j input' current',
      (s.write F parse parseURL i current input now fails).request? j =
        some { input := input', current := some current' } → NoMask current'.headers := by
    intro j input' current' hj
    rw [write, request?, receive_requests] at hj
    exact h.requests j input' current' (request?_erase hj)
  rcases Handler.storeWebhook_cases F parse parseURL s.stored current input now fails with
    ⟨_, err, hstore⟩ | ⟨hstores, _⟩
  · refine ⟨?_, hrequests⟩
    simp only [write, hstore]
    exact h.stored
  · refine ⟨?_, hrequests⟩
    rw [write_stored hstores]
    exact hcurrent.restore (hok _ hi current rfl hstores)

theorem inv_step {a : Action} (hok : Restores F parse parseURL s a) (h : Inv s) :
    Inv (step F parse parseURL s a) := by
  cases a with
  | get fails =>
    refine h.of_requests (receive_stored _) fun i input current hi => ?_
    rwa [step, request?, receive_requests] at hi
  | put i input =>
    rw [step]
    split
    next => exact h
    next =>
      refine h.of_requests rfl fun j input' current hj => ?_
      rw [request?, Map.lookup_insert] at hj
      split at hj
      · cases hj
      · exact hj
  | read i fails =>
    rw [step]
    split
    next input hi =>
      split
      next => exact h.of_requests rfl fun _ _ _ hj => request?_erase hj
      next current hcurrent =>
        have hheaders : current.headers = storedHeaders s.stored := by
          rw [currentWebhook_ok hcurrent]
          rfl
        refine ⟨h.stored, fun j input' current' hj => ?_⟩
        rw [request?, Map.lookup_insert] at hj
        split at hj
        · cases hj
          rw [hheaders]
          exact h.stored
        · exact h.requests j input' current' hj
    next => exact h
  | write i now fails =>
    rw [step]
    split
    next input current hi => exact inv_write hok h hi
    next => exact h

/-- A step into a state without the mask has met the condition: a write that does not meet it
stores the mask. -/
theorem restores_of_noMask {a : Action}
    (h : NoMask (storedHeaders (step F parse parseURL s a).stored)) :
    Restores F parse parseURL s a := by
  cases a with
  | write i now fails =>
    rintro ⟨input, _⟩ hi current rfl hstores name hname
    rw [step, show s.request? i = _ from hi] at h
    rw [write_stored hstores] at h
    exact h.of_restore hname
  | _ => trivial

end Steps

theorem inv_initial : Inv initial where
  stored name _ h := by
    rw [initial, storedHeaders, Option.getD_none, defaultWebhookConfig, AList.lookup_empty] at h
    cases h
  requests i input current h := by
    rw [request?, initial, AList.lookup_empty] at h
    cases h

/-- **The mask is never stored** exactly when every PUT that gets as far as the row has read a
stored value for what it has masked: in every run from an empty table, however requests
interleave. -/
theorem mask_never_stored {F : Type} [FloatText F] {parse : String → Option Template}
    {parseURL : String → Option Endpoint} (as : List Action) :
    Throughout (step F parse parseURL) (fun s => NoMask (storedHeaders s.stored)) initial as ↔
      Guarded (step F parse parseURL) (Restores F parse parseURL) initial as :=
  ⟨Throughout.guarded (P := fun s : Panel => NoMask (storedHeaders s.stored)) fun _ _ =>
      restores_of_noMask,
    fun h => h.throughout (fun _ hinv => hinv.stored) (fun _ _ hok hinv => inv_step hok hinv)
      inv_initial⟩

instance (s : Panel) (a : Action) : Decidable (Kept s a) :=
  match a with
  | .put _ _ => inferInstanceAs (Decidable (_ → _))
  | .get _ => isTrue trivial
  | .read _ _ => isTrue trivial
  | .write _ _ _ => isTrue trivial

instance (F : Type) [FloatText F] (parse : String → Option Template)
    (parseURL : String → Option Endpoint) (s : Panel) (a : Action) :
    Decidable (Restores F parse parseURL s a) :=
  match a with
  | .write i now fails => inferInstanceAs (Decidable (∀ request ∈ s.request? i,
      ∀ current ∈ request.current,
        Handler.stores F parse parseURL current request.input now fails = true →
          ∀ name ∈ maskedNames request.input.headers, name ∈ current.headers))
  | .get _ => isTrue trivial
  | .put _ _ => isTrue trivial
  | .read _ _ => isTrue trivial

/-- A configuration with one header. -/
def oneHeader (name value : String) : WebhookConfig :=
  { hookOf defaultBodyTemplate with headers := AList.singleton name value }

/-- A PUT that nothing comes between. -/
def putAlone (i : Nat) (input : WebhookConfig) : List Action :=
  [.put i input, .read i false, .write i ⟨0⟩ false]

/-- A credential is stored, and its answer sent back. -/
def sentBack : List Action :=
  putAlone 0 (oneHeader "Authorization" "Bearer 1") ++
    .get false :: putAlone 1 (oneHeader "Authorization" maskedHeaderValue)

theorem sentBack_noMask :
    storedHeaders (run (step Exact parseKnown parseKnownURL) initial sentBack).stored =
        AList.singleton "Authorization" "Bearer 1" ∧
      NoMask (storedHeaders (run (step Exact parseKnown parseKnownURL) initial sentBack).stored) :=
  ⟨by decide +kernel, ((mask_never_stored sentBack).mpr (by decide +kernel)).last⟩

/-- The answer is sent back with the name of the header in lower case. -/
def recased : List Action :=
  putAlone 0 (oneHeader "Authorization" "Bearer 1") ++
    .get false :: putAlone 1 (oneHeader "authorization" maskedHeaderValue)

/-- The client has kept what it received, and the mask is stored for the credential. -/
theorem recased_stores_mask :
    Guarded (step Exact parseKnown parseKnownURL) Kept initial recased ∧
      storedHeaders (run (step Exact parseKnown parseKnownURL) initial recased).stored =
        AList.singleton "authorization" maskedHeaderValue ∧
      ¬ NoMask (storedHeaders (run (step Exact parseKnown parseKnownURL) initial recased).stored) := by
  have hstored : storedHeaders (run (step Exact parseKnown parseKnownURL) initial recased).stored =
      AList.singleton "authorization" maskedHeaderValue := by decide +kernel
  refine ⟨by decide +kernel, hstored, fun h => ?_⟩
  rw [hstored] at h
  exact h "authorization" (by decide +kernel) (by decide +kernel)

end Panel

end TinyProbe.Alerting
