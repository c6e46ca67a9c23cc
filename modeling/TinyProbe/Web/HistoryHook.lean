import TinyProbe.History.Timeline
import TinyProbe.Lib.Run
import TinyProbe.Lib.Stream
import Mathlib.Logic.Function.Basic

/-!
# The hook of the history charts

`useHistory` keeps what it last heard of a selection, a server and a range, and all its instances share
one cache. React renders an instance with a selection before the effect for that selection has run, so
the state may still be about another one; it carries the key it is about, and a render whose key is
another reads the cache instead.

The system is any number of instances, mounted one after another, with their renders, effects and
cleanups, the functions that React has still to run, the requests, and the clock, whose readings are
arbitrary. An answer and the failure of a request arrive at any time after it, and what `then` throws
reaches `catch` later. `answers` and `failures` are records of the run, and so is the first selection
of an instance.
-/

namespace TinyProbe.Web

open History

/-! ## Answers -/

/-- What `JSON.parse` makes of a body: of a number, its value if it is an integer, and the fields of an
object as they are written. -/
inductive JSONValue where
  | null
  | boolean (value : Bool)
  | number (integer : Option Int)
  | text (value : String)
  | array (items : List JSONValue)
  | object (fields : List (String × JSONValue))

/-- The value of a field; the last of a name counts. -/
def JSONValue.field? (fields : List (String × JSONValue)) (name : String) : Option JSONValue :=
  (Stream.lastOf Prod.fst name fields).map Prod.snd

/-- `isHistoryResponse`. -/
def isHistoryResponse : JSONValue → Bool
  | .object fields =>
    match JSONValue.field? fields "fromUnix", JSONValue.field? fields "toUnix",
      JSONValue.field? fields "points" with
    | some (.number (some fromUnix)), some (.number (some toUnix)), some (.array _) =>
      isValidHistoryRange fromUnix toUnix
    | _, _, _ => false
  | _ => false

/-! ## The cache -/

/-- `Range`. -/
inductive HistoryRange where
  | day
  | week
  | month
deriving DecidableEq, Repr

def HistoryRange.text : HistoryRange → String
  | .day => "1d"
  | .week => "7d"
  | .month => "30d"

/-- `CACHE_TTL_MS`. -/
def cacheTTL : Int := 60000

/-- `HISTORY_ERROR`. -/
def historyError : String := "暂时无法获取历史指标，请稍后重试。"

/-- `CacheEntry`. -/
structure CacheEntry where
  cachedAt : Int
  data : JSONValue

abbrev HistoryCache := Map String CacheEntry

/-- `cacheKey`. -/
def cacheKey (serverID : Int) (range : HistoryRange) : String := serverID.repr ++ ":" ++ range.text

/-- `cachedHistory`, at a reading of the clock. -/
def cachedHistory (cache : HistoryCache) (now : Int) (key : String) :
    Option JSONValue × HistoryCache :=
  match AList.lookup key cache with
  | none => (none, cache)
  | some entry =>
    let age := now - entry.cachedAt
    if age < 0 ∨ cacheTTL ≤ age then (none, cache.erase key) else (some entry.data, cache)

/-! ## The hook -/

/-- `HistoryState`. -/
structure HistoryState where
  key : Option String
  loading : Bool
  error : Option String
  data : Option JSONValue

/-- `UseHistoryState`. -/
structure UseHistoryState where
  loading : Bool
  error : Option String
  data : Option JSONValue

/-- The dependencies of the effect; the key is made of two of them. -/
structure HistoryDeps where
  attempt : Nat
  serverID : Int
  range : Option HistoryRange
deriving DecidableEq

/-- An instance of `useHistory`. `serverID` and `range` are those of the last committed render. -/
structure HistoryHook where
  serverID : Int
  range : Option HistoryRange
  attempt : Nat
  /-- The calls of `setAttempt` that React has still to run. -/
  attempts : Nat
  state : HistoryState
  /-- The states that `setState` was called with and that React has still to take over. -/
  states : List HistoryState
  generationRef : Nat
  /-- What the effect last ran for. -/
  deps : Option HistoryDeps
  /-- The request that the cleanup aborts. -/
  controller : Option Nat
  mounted : Bool
  /-- The selection it was mounted with. -/
  first : Int × Option HistoryRange

/-- Where a request stands; what has been rejected is on its way to `catch`. -/
inductive HistoryPhase where
  | pending
  | rejected (serverMessage : Option String)
  | settled

/-- A request, with the closure of its effect. -/
structure HistoryRequest where
  hook : Nat
  serverID : Int
  range : HistoryRange
  generation : Nat
  aborted : Bool
  phase : HistoryPhase

/-- The instances, the cache they share, and their requests. -/
structure HistoryHooks where
  cache : HistoryCache
  hooks : Nat → Option HistoryHook
  requests : Nat → Option HistoryRequest
  nextRequest : Nat
  /-- The bodies that have arrived. -/
  answers : List (Nat × JSONValue)
  /-- The failures, with the message of the server if there is one. -/
  failures : List (Nat × Option String)

namespace HistoryHook

/-- The state of an instance whose range is `null`. -/
def blank : HistoryState := { key := none, loading := false, error := none, data := none }

/-- The initialiser of `useState`, which asks the cache twice. -/
def initialState (cache : HistoryCache) (serverID : Int) (range : Option HistoryRange)
    (now later : Int) : HistoryState × HistoryCache :=
  match range with
  | none => (blank, cache)
  | some range =>
    let key := cacheKey serverID range
    let (seen, cache) := cachedHistory cache now key
    let (data, cache) := cachedHistory cache later key
    ({ key := some key, loading := seen.isNone, error := none, data }, cache)

/-- What a render with this selection returns. -/
def view (h : HistoryHook) (cache : HistoryCache) (serverID : Int) (range : Option HistoryRange)
    (now : Int) : UseHistoryState × HistoryCache :=
  match range with
  | none => ({ loading := false, error := none, data := none }, cache)
  | some range =>
    let key := cacheKey serverID range
    if h.state.key ≠ some key then
      let (cached, cache) := cachedHistory cache now key
      ({ loading := cached.isNone, error := none, data := cached }, cache)
    else ({ loading := h.state.loading, error := h.state.error, data := h.state.data }, cache)

/-- A new instance. -/
def new (serverID : Int) (range : Option HistoryRange) (state : HistoryState) : HistoryHook :=
  { serverID, range, attempt := 0, attempts := 0, state, states := [], generationRef := 0, deps := none
    controller := none, mounted := true, first := (serverID, range) }

def currentDeps (h : HistoryHook) : HistoryDeps :=
  { attempt := h.attempt, serverID := h.serverID, range := h.range }

def setState (h : HistoryHook) (state : HistoryState) : HistoryHook :=
  { h with states := h.states ++ [state] }

end HistoryHook

namespace HistoryHooks

open HistoryHook

inductive Action where
  /-- The first render of a new instance. -/
  | mount (i : Nat) (serverID : Int) (range : Option HistoryRange) (now later : Int)
  /-- React takes over the next state. -/
  | takeState (i : Nat)
  /-- React runs the next function passed to `setAttempt`. -/
  | takeAttempt (i : Nat)
  /-- A render, which React may discard. -/
  | render (i : Nat) (serverID : Int) (range : Option HistoryRange) (now : Int) (commits : Bool)
  /-- The effect, after the cleanup of the last one; React also runs it again with `again`. -/
  | effect (i : Nat) (now : Int) (again : Bool)
  | unmount (i : Nat)
  /-- A call of the `retry` that a render with this selection has returned. -/
  | retry (i : Nat) (serverID : Int) (range : Option HistoryRange)
  | respond (n : Nat) (value : JSONValue) (now : Int)
  | fail (n : Nat) (serverMessage : Option String)
  /-- `catch`. -/
  | caught (n : Nat)

def start : HistoryHooks :=
  { cache := ∅, hooks := fun _ => none, requests := fun _ => none, nextRequest := 0, answers := []
    failures := [] }

def put (s : HistoryHooks) (i : Nat) (h : HistoryHook) : HistoryHooks :=
  { s with hooks := Function.update s.hooks i (some h) }

def putRequest (s : HistoryHooks) (n : Nat) (r : HistoryRequest) : HistoryHooks :=
  { s with requests := Function.update s.requests n (some r) }

/-- `controller.abort()`. -/
def cleanup (s : HistoryHooks) (h : HistoryHook) : HistoryHooks :=
  match h.controller with
  | none => s
  | some n =>
    match s.requests n with
    | none => s
    | some r => s.putRequest n { r with aborted := true }

/-- The body of the effect. -/
def runEffect (s : HistoryHooks) (i : Nat) (h : HistoryHook) (now : Int) : HistoryHooks :=
  let generation := h.generationRef + 1
  let h := { h with generationRef := generation, deps := some h.currentDeps, controller := none }
  match h.range with
  | none => s.put i (h.setState blank)
  | some range =>
    let key := cacheKey h.serverID range
    let (cached, cache) := cachedHistory s.cache now key
    let s := { s with cache }
    match cached with
    | some data =>
      s.put i (h.setState { key := some key, loading := false, error := none, data := some data })
    | none =>
      let h := h.setState { key := some key, loading := true, error := none, data := none }
      { (s.putRequest s.nextRequest
          { hook := i, serverID := h.serverID, range, generation, aborted := false
            phase := .pending }).put i { h with controller := some s.nextRequest } with
        nextRequest := s.nextRequest + 1 }

/-- The callback of `then`. -/
def respond (s : HistoryHooks) (n : Nat) (r : HistoryRequest) (h : HistoryHook) (value : JSONValue)
    (now : Int) : HistoryHooks :=
  if r.aborted = true ∨ r.generation ≠ h.generationRef then
    s.putRequest n { r with phase := .settled }
  else if isHistoryResponse value = false then
    { s.putRequest n { r with phase := .rejected none } with failures := s.failures ++ [(n, none)] }
  else
    let key := cacheKey r.serverID r.range
    { (s.putRequest n { r with phase := .settled }).put r.hook
        (h.setState { key := some key, loading := false, error := none, data := some value }) with
      cache := s.cache.insert key { cachedAt := now, data := value } }

/-- The callback of `catch`. -/
def caught (s : HistoryHooks) (n : Nat) (r : HistoryRequest) (h : HistoryHook)
    (serverMessage : Option String) : HistoryHooks :=
  let s := s.putRequest n { r with phase := .settled }
  if r.aborted = true ∨ r.generation ≠ h.generationRef then s
  else
    s.put r.hook (h.setState
      { key := some (cacheKey r.serverID r.range), loading := false
        error := some (serverMessage.getD historyError), data := none })

/-- An instance that is mounted. -/
def mounted? (s : HistoryHooks) (i : Nat) : Option HistoryHook :=
  (s.hooks i).filter fun h => h.mounted

def step (s : HistoryHooks) : Action → HistoryHooks
  | .mount i serverID range now later =>
    match s.hooks i with
    | some _ => s
    | none =>
      let (state, cache) := initialState s.cache serverID range now later
      { s.put i (.new serverID range state) with cache }
  | .takeState i =>
    match s.mounted? i with
    | none => s
    | some h =>
      match h.states with
      | [] => s
      | state :: states => s.put i { h with state, states }
  | .takeAttempt i =>
    match s.mounted? i with
    | none => s
    | some h =>
      match h.attempts with
      | 0 => s
      | attempts + 1 => s.put i { h with attempt := h.attempt + 1, attempts }
  | .render i serverID range now commits =>
    match s.mounted? i with
    | none => s
    | some h =>
      let s := { s with cache := (h.view s.cache serverID range now).2 }
      if commits then s.put i { h with serverID, range } else s
  | .effect i now again =>
    match s.mounted? i with
    | none => s
    | some h =>
      if h.deps = some h.currentDeps ∧ again = false then s else (s.cleanup h).runEffect i h now
  | .unmount i =>
    match s.mounted? i with
    | none => s
    | some h => (s.cleanup h).put i { h with mounted := false, controller := none }
  | .retry i serverID range =>
    match s.hooks i, range with
    | some h, some range =>
      { s.put i { h with attempts := h.attempts + 1 } with
        cache := s.cache.erase (cacheKey serverID range) }
    | _, _ => s
  | .respond n value now =>
    match s.requests n with
    | none => s
    | some r =>
      match r.phase, s.hooks r.hook with
      | .pending, some h => { s with answers := s.answers ++ [(n, value)] }.respond n r h value now
      | _, _ => s
  | .fail n serverMessage =>
    match s.requests n with
    | none => s
    | some r =>
      match r.phase with
      | .pending =>
        { s.putRequest n { r with phase := .rejected serverMessage } with
          failures := s.failures ++ [(n, serverMessage)] }
      | _ => s
  | .caught n =>
    match s.requests n with
    | none => s
    | some r =>
      match r.phase, s.hooks r.hook with
      | .rejected serverMessage, some h => s.caught n r h serverMessage
      | _, _ => s

end HistoryHooks

end TinyProbe.Web
