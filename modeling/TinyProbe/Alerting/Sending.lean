import TinyProbe.Alerting.Webhook

/-!
# The headers of a delivery

`Send` sets the content type and then the configured headers, in the order in which Go goes through
the map, which is any. `Header.Set` writes under the canonical form of a name, so of two names with
one canonical form the later wins, and `validateWebhook` does not look at the headers.
-/

namespace TinyProbe.Alerting

/-- `validHeaderFieldByte`: the letters of a token. -/
def validHeaderFieldChar (c : Char) : Bool := c.isAlphanum || "!#$%&'*+-.^_\x60|~".toList.contains c

/-- A letter in upper case at the beginning and behind a hyphen, in lower case elsewhere. -/
def canonicalize : Bool → List Char → List Char
  | _, [] => []
  | upper, c :: cs => (if upper then c.toUpper else c.toLower) :: canonicalize (c == '-') cs

/-- `CanonicalMIMEHeaderKey`: a name with another letter is left as it is. -/
def canonicalMIMEHeaderKey (name : String) : String :=
  if name.toList.all validHeaderFieldChar then String.ofList (canonicalize true name.toList)
  else name

/-- The headers of the request `Send` builds, for an order of the configured ones. -/
def requestHeaders (order : List (Sigma fun _ : String => String)) : Map String String :=
  Map.insertAll (fun e => canonicalMIMEHeaderKey e.1) (fun e => e.2)
    (AList.singleton "Content-Type" "application/json") order

/-- **The headers of a delivery are determined by the configuration** exactly if no two of its names
with one canonical form have different values. Otherwise the order in which the map is gone through
decides, as the last of them is the one that is set. -/
theorem requestHeaders_order_iff (headers : Map String String) :
    (∀ order order', order.Perm headers.entries → order'.Perm headers.entries → ∀ name,
        AList.lookup name (requestHeaders order) = AList.lookup name (requestHeaders order')) ↔
      ∀ name name' value value', AList.lookup name headers = some value →
        AList.lookup name' headers = some value' →
          canonicalMIMEHeaderKey name = canonicalMIMEHeaderKey name' → value = value' := by
  unfold requestHeaders
  rw [Map.insertAll_order_iff]
  constructor
  · intro h name name' value value' hvalue hvalue' hname
    exact h ⟨name, value⟩ (Map.mem_entries_iff.mpr hvalue) ⟨name', value'⟩
      (Map.mem_entries_iff.mpr hvalue') hname
  · intro h e he e' he' hname
    exact h e.1 e'.1 e.2 e'.2 (Map.mem_entries_iff.mp he) (Map.mem_entries_iff.mp he') hname

/-- A configuration with one name in two spellings. -/
def twoSpellings : WebhookConfig :=
  { hookOf defaultBodyTemplate with headers := (AList.singleton "X-Key" "1").insert "x-key" "2" }

/-- It is accepted, and which of the two values is sent depends on the order. -/
theorem twoSpellings_order :
    validateWebhook Exact parseKnown parseKnownURL twoSpellings ⟨0⟩ = true ∧
      twoSpellings.headers.entries.reverse.Perm twoSpellings.headers.entries ∧
      AList.lookup "X-Key" (requestHeaders twoSpellings.headers.entries) = some "1" ∧
      AList.lookup "X-Key" (requestHeaders twoSpellings.headers.entries.reverse) = some "2" :=
  ⟨by decide +kernel, List.reverse_perm _, by decide +kernel, by decide +kernel⟩

end TinyProbe.Alerting
