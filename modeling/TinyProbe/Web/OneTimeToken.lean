import TinyProbe.Web.Installation

/-!
# The one-time token

A token is in the answer to the request that makes it and nowhere else. `DashboardRouter` keeps it
until the user has saved it or its server is deleted, lets no other request for a token begin
meanwhile, and comes back to the page when the answer arrives while another page is open.

The page is mounted anew when it is left and opened, and whenever a token is published. Each mount
has a collection of its own, and the calls it has begun go on when it is unmounted. Buttons do
something only where they are on the page and enabled; whether a form or a confirmation is open is
left out, so more can be clicked here than there. Answers come at any time, in any order and with
anything.

`source`, `saved` and `dropped` are records of the calls whose tokens are shown, were said to be
saved, and went with their servers.
-/

namespace TinyProbe.Web

open Collection

inductive ReturnFocus where
  | create
  | rotate (serverID : Int)
deriving DecidableEq

structure OneTimeToken where
  serverID : Int
  serverName : String
  token : String
  returnFocus : ReturnFocus
deriving DecidableEq

/-- What a request for a token is for. -/
inductive TokenTarget where
  | create (page : Nat)
  /-- The rotation has a call of the page's collection. -/
  | rotate (page generation : Nat) (serverID : Int) (serverName : String)

inductive TokenEnding where
  | pending
  /-- Answered with a token for a server. -/
  | answered (serverID : Int) (token : String)
  /-- Answered, and the token was thrown away. -/
  | superseded
  | failed
deriving DecidableEq

structure TokenCall where
  target : TokenTarget
  ending : TokenEnding

def TokenTarget.serverID? : TokenTarget → Option Int
  | .create _ => none
  | .rotate _ _ serverID _ => some serverID

/-- `DashboardRouter` with the pages it has mounted. `renames` has the names that were asked for, by
page and generation. -/
structure Dashboard where
  oneTimeToken : Option OneTimeToken
  tokenRequestPending : Bool
  tokenRequestServerID : Option Int
  tokenRequestError : String
  managementGeneration : Nat
  tokenRef : Option OneTimeToken
  tokenLockRef : Bool
  mounted : Option Nat
  pages : Nat → Collection
  nextPage : Nat
  renames : Nat → Nat → Option String
  tokenCalls : Nat → Option TokenCall
  nextCall : Nat
  source : Option Nat
  saved : List Nat
  dropped : List Nat

namespace Dashboard

/-- The answer to a request that is not for a token. -/
inductive Answer where
  | listed (result : List ServerRecord)
  | updated (server : ServerRecord)
  | removed
  | failed (error : String)

def Answer.action (generation : Nat) : Answer → Collection.Action
  | .listed result => .listed generation result
  | .updated server => .updated generation server
  | .removed => .removed generation
  | .failed error => .failed generation error

inductive Action where
  /-- `/servers` is opened. -/
  | opened
  | left
  | reload
  | create
  | rotate (serverID : Int)
  | rename (serverID : Int) (name : String)
  | toggle (serverID : Int)
  | remove (serverID : Int)
  | saved
  | answer (page generation : Nat) (a : Answer)
  | created (call : Nat) (server : ServerRecord) (token : String)
  | rotated (call : Nat) (server : ServerRecord) (token : String)
  | refused (call : Nat) (error : String)

/-- A page that has nothing yet, with its first list request. -/
def freshPage : Collection := Collection.new.loadServers

def start : Dashboard :=
  { oneTimeToken := none, tokenRequestPending := false, tokenRequestServerID := none
    tokenRequestError := "", managementGeneration := 0, tokenRef := none, tokenLockRef := false
    mounted := none, pages := fun _ => freshPage, nextPage := 0, renames := fun _ _ => none
    tokenCalls := fun _ => none, nextCall := 0, source := none, saved := [], dropped := [] }

def mount (s : Dashboard) : Dashboard :=
  { s with
    mounted := some s.nextPage
    pages := Function.update s.pages s.nextPage freshPage
    nextPage := s.nextPage + 1 }

def setPage (s : Dashboard) (page : Nat) (collection : Collection) : Dashboard :=
  { s with pages := Function.update s.pages page collection }

def setTokenCall (s : Dashboard) (call : Nat) (value : TokenCall) : Dashboard :=
  { s with tokenCalls := Function.update s.tokenCalls call (some value) }

/-! ## `DashboardRouter` -/

/-- `startTokenRequest`, when the lock is free. -/
def startTokenRequest (s : Dashboard) (serverID : Option Int) : Dashboard :=
  { s with
    tokenLockRef := true
    tokenRequestError := ""
    tokenRequestPending := true
    tokenRequestServerID := serverID }

def failTokenRequest (s : Dashboard) (message : String) : Dashboard :=
  { s with
    tokenRequestPending := false
    tokenRequestServerID := none
    tokenRequestError := message
    tokenLockRef := s.tokenRef.isSome }

/-- `publishToken`. The new key mounts the page anew. -/
def publishToken (s : Dashboard) (call : Nat) (token : OneTimeToken) : Dashboard :=
  { s with
    tokenRef := some token
    tokenLockRef := true
    oneTimeToken := some token
    tokenRequestPending := false
    tokenRequestServerID := none
    tokenRequestError := ""
    managementGeneration := s.managementGeneration + 1
    source := some call }.mount

def clearToken (s : Dashboard) : Dashboard :=
  { s with
    tokenRef := none, tokenLockRef := false, oneTimeToken := none
    source := none, saved := s.saved ++ s.source.toList }

def clearTokenForDeletedServer (s : Dashboard) (serverID : Int) : Dashboard :=
  if s.oneTimeToken.map OneTimeToken.serverID = some serverID then
    { s with
      tokenRef := none, tokenLockRef := false, oneTimeToken := none
      source := none, dropped := s.dropped ++ s.source.toList }
  else s

def renameTokenServer (s : Dashboard) (serverID : Int) (serverName : String) : Dashboard :=
  match s.oneTimeToken with
  | none => s
  | some current =>
    if current.serverID = serverID then
      { s with
        tokenRef := some { current with serverName }
        oneTimeToken := some { current with serverName } }
    else s

/-! ## `ServersPage` -/

/-- `tokenLocked`. -/
def tokenLocked (s : Dashboard) : Bool := s.tokenRequestPending || s.oneTimeToken.isSome

/-- The row of a server on the mounted page. -/
def row? (s : Dashboard) (page : Nat) (serverID : Int) : Option ServerRecord :=
  if (s.pages page).loadState = .success then
    (s.pages page).servers.find? fun server => server.id == serverID
  else none

def rowBusy (s : Dashboard) (page : Nat) (serverID : Int) : Bool :=
  (AList.lookup serverID (s.pages page).pendingByServer).isSome ||
    (s.tokenRequestPending && s.tokenRequestServerID == some serverID)

/-- `create`, as far as the request. -/
def create (s : Dashboard) (page : Nat) : Dashboard :=
  if (s.pages page).loadState = .loading ∨ s.tokenLocked = true ∨ s.tokenLockRef = true then s
  else
    { (s.startTokenRequest none).setTokenCall s.nextCall ⟨.create page, .pending⟩ with
      nextCall := s.nextCall + 1 }

/-- `rotate`, as far as the request. -/
def rotate (s : Dashboard) (page : Nat) (server : ServerRecord) : Dashboard :=
  if s.rowBusy page server.id = true ∨ s.tokenLocked = true ∨ s.tokenLockRef = true then s
  else
    let generation := (s.pages page).nextGeneration + 1
    { ((s.startTokenRequest (some server.id)).setPage page
          ((s.pages page).step (.updateServer server.id .rotate))).setTokenCall s.nextCall
        ⟨.rotate page generation server.id server.name, .pending⟩ with
      nextCall := s.nextCall + 1 }

/-- `rename`, `toggle` and `remove`, as far as the request. -/
def mutate (s : Dashboard) (page : Nat) (server : ServerRecord) (a : Collection.Action)
    (name : Option String) : Dashboard :=
  if s.rowBusy page server.id = true then s
  else
    let generation := (s.pages page).nextGeneration + 1
    { s.setPage page ((s.pages page).step a) with
      renames := Function.update s.renames page
        (Function.update (s.renames page) generation name) }

/-- What `rename`, `toggle` and `remove` do with the outcome. -/
def settled (s : Dashboard) (page generation : Nat) (kind : Kind) (ending : Option Ending) :
    Dashboard :=
  match kind, ending with
  | .update serverID .rename, some (.applied true) =>
    s.renameTokenServer serverID ((s.renames page generation).getD "")
  | .remove serverID, some (.applied true) => s.clearTokenForDeletedServer serverID
  | _, _ => s

/-- A call that is not for a token is answered. -/
def answer (s : Dashboard) (page generation : Nat) (a : Answer) : Dashboard :=
  match (s.pages page).underWay? generation with
  | none | some (.update _ .rotate) => s
  | some kind =>
    let collection := (s.pages page).step (a.action generation)
    (s.setPage page collection).settled page generation kind
      ((collection.calls generation).map Call.ending)

/-- `create`, with its answer. -/
def created (s : Dashboard) (call page : Nat) (server : ServerRecord) (token : String) :
    Dashboard :=
  ((s.setPage page ((s.pages page).step (.addServer server))).setTokenCall call
    ⟨.create page, .answered server.id token⟩).publishToken call
      ⟨server.id, server.name, token, .create⟩

def replaced : String := "Token 请求已被更新的操作替代，请重试。"

/-- `rotate`, with its answer. -/
def rotated (s : Dashboard) (call page generation : Nat) (serverID : Int) (serverName : String)
    (server : ServerRecord) (token : String) : Dashboard :=
  let collection := (s.pages page).step (.updated generation server)
  let s := s.setPage page collection
  let target : TokenTarget := .rotate page generation serverID serverName
  if (collection.calls generation).map Call.ending = some (.applied true) then
    (s.setTokenCall call ⟨target, .answered serverID token⟩).publishToken call
      ⟨serverID, serverName, token, .rotate serverID⟩
  else (s.setTokenCall call ⟨target, .superseded⟩).failTokenRequest replaced

/-- `create` or `rotate`, whose request has failed. -/
def refused (s : Dashboard) (call : Nat) (error : String) : TokenTarget → Dashboard
  | .create page => (s.setTokenCall call ⟨.create page, .failed⟩).failTokenRequest error
  | .rotate page generation serverID serverName =>
    let collection := (s.pages page).step (.failed generation error)
    ((s.setPage page collection).setTokenCall call
      ⟨.rotate page generation serverID serverName, .failed⟩).failTokenRequest
        (if (collection.calls generation).map Call.ending = some (.applied false) then replaced
        else error)

/-- A click on a row of the mounted page. -/
def onRow (s : Dashboard) (serverID : Int) (f : Nat → ServerRecord → Dashboard) : Dashboard :=
  match s.mounted with
  | none => s
  | some page =>
    match s.row? page serverID with
    | none => s
    | some server => f page server

def step (s : Dashboard) : Action → Dashboard
  | .opened =>
    match s.mounted with
    | none => s.mount
    | some _ => s
  | .left => { s with mounted := none }
  | .reload =>
    match s.mounted with
    | none => s
    | some page => s.setPage page ((s.pages page).step .loadServers)
  | .create =>
    match s.mounted with
    | none => s
    | some page => s.create page
  | .rotate serverID => s.onRow serverID s.rotate
  | .rename serverID name =>
    s.onRow serverID fun page server =>
      if name = "" ∨ name = server.name then s
      else s.mutate page server (.updateServer server.id .rename) (some name)
  | .toggle serverID =>
    s.onRow serverID fun page server => s.mutate page server (.updateServer server.id .toggle) none
  | .remove serverID =>
    s.onRow serverID fun page server => s.mutate page server (.removeServer server.id) none
  | .saved =>
    match s.mounted with
    | none => s
    | some _ => if s.oneTimeToken.isSome then s.clearToken else s
  | .answer page generation a => s.answer page generation a
  | .created call server token =>
    match s.tokenCalls call with
    | some ⟨.create page, .pending⟩ => s.created call page server token
    | _ => s
  | .rotated call server token =>
    match s.tokenCalls call with
    | some ⟨.rotate page generation serverID serverName, .pending⟩ =>
      s.rotated call page generation serverID serverName server token
    | _ => s
  | .refused call error =>
    match s.tokenCalls call with
    | some ⟨target, .pending⟩ => s.refused call error target
    | _ => s

end Dashboard

end TinyProbe.Web
