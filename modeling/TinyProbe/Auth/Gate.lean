import TinyProbe.Auth.Setup
import TinyProbe.Lib.Stream
import TinyProbe.Lib.Trace

/-!
# The session in front of the endpoints

The endpoints of `NewRouter` and `RequireSession` in front of most of them, over any number of
requests, logins and setups at once. A login reads the administrator, verifies the password and
inserts its session, and others come between these steps; a statement may fail, and what it was to
do may be done all the same. A login that nothing comes between does what `Database.login` has of it
(`login_alone`).

`log` is a record that no step looks at: the sessions that were stored and removed and the answers
of `Authenticate`.

Which endpoint a request goes to is for chi to say. What the endpoints do behind the session is not
here, apart from the logout.
-/

namespace TinyProbe.Auth

open Run TinyProbe.Stream

/-- The endpoints of `NewRouter`. -/
inductive Endpoint where
  | health | downloads | spa | setupStatus | setup | login | report
  | logout | me
  | listServers | listStatus | detailStatus | history | live
  | listRules | createRule | updateRule | deleteRule | listEvents
  | getWebhook | putWebhook | testWebhook
  | createServer | updateServer | deleteServer | rotateToken
deriving DecidableEq

/-- The endpoints of the group that uses `RequireSession`. -/
def Endpoint.requiresSession : Endpoint → Bool
  | .health | .downloads | .spa | .setupStatus | .setup | .login | .report => false
  | _ => true

/-- How far a call of `Login` has got. -/
inductive LoginProgress where
  | begun
  /-- The administrator was read. -/
  | read (row : Option AdminRow)
  /-- The password is that of the administrator, and so is the username. -/
  | verified (row : AdminRow)
  | refused (err : AuthError)
  | done (token : String) (expires : Time)

structure LoginCall where
  username : String
  password : String
  progress : LoginProgress

/-- How far a request has got. -/
inductive RequestProgress where
  | arrived
  /-- `RequireSession` has answered. -/
  | refused (status : Nat)
  /-- The handler runs, with the administrator in its context. -/
  | handled (admin : Option Admin)
  | answered (admin : Option Admin) (status : Nat)
deriving DecidableEq

/-- The handler was called, with this administrator. -/
def RequestProgress.reached? : RequestProgress → Option (Option Admin)
  | .handled admin | .answered admin _ => some admin
  | _ => none

/-- A request, with the value of its session cookie. -/
structure GateRequest where
  endpoint : Endpoint
  cookie : Option String
  progress : RequestProgress

/-- What happens to sessions. -/
inductive Event (D : Type) where
  | stored (login : Nat) (row : AdminRow) (digest : D) (s : Session)
  | removed (request : Nat) (digest : D)
  /-- `Authenticate` has returned an administrator or `ErrUnauthenticated`. -/
  | checked (request : Nat) (digest : D) (at' : Time) (admin : Option Admin)

namespace Event

variable {D : Type}

/-- The digest whose row changes. -/
def digest? : Event D → Option D
  | .stored _ _ digest _ | .removed _ digest => some digest
  | .checked _ _ _ _ => none

def session? : Event D → Option (AdminRow × Session)
  | .stored _ row _ s => some (row, s)
  | _ => none

end Event

variable {D : Type} [DecidableEq D]

/-- The session that is stored after a log. -/
def standing (log : List (Event D)) (digest : D) : Option (AdminRow × Session) :=
  (lastOf Event.digest? (some digest) log).bind Event.session?

/-- `WHERE s.expires_at > ?`, with the session's administrator. -/
def admitted (at' : Time) (grant : AdminRow × Session) : Option Admin :=
  if at'.format < grant.2.expiresAt then some grant.1.toAdmin else none

/-- An answer of `Authenticate` is that of what is stored. -/
def Event.Fair (pre : List (Event D)) : Event D → Prop
  | .checked _ digest at' admin => admin = (standing pre digest).bind (admitted at')
  | _ => True

/-- The tables and the calls under way. -/
structure Gate (D : Type) [DecidableEq D] where
  db : Database D
  now : Time
  calls : Nat → Option Call
  logins : Nat → Option LoginCall
  requests : Nat → Option GateRequest
  log : List (Event D)

/-- What the package draws from: `verifyPassword`, SHA-256, and the text of a conflict. -/
structure Crypto (D : Type) where
  verify : String → String → Option Bool
  digest : String → D
  violation : String

namespace Gate

inductive Action where
  | wait (ns : Nat)
  | setup (a : Setup.Action)
  | login (id : Nat) (username password : String)
  /-- The `SELECT` of a login. -/
  | read (id : Nat) (fails : Bool)
  | verify (id : Nat)
  /-- `tokenPair` and the `INSERT`; `fault` says of a failed one if the row was inserted. -/
  | insert (id : Nat) (token : Option String) (fault : Option Bool)
  | request (id : Nat) (endpoint : Endpoint) (cookie : Option String)
  /-- The request comes to its handler or is answered before. -/
  | enter (id : Nat) (fails : Bool)
  /-- The handler of a logout; `fault` says of a failed one if the row was deleted. -/
  | logout (id : Nat) (fault : Option Bool)

/-- An empty database. -/
def start (now : Time) : Gate D :=
  { db := .empty, now, calls := fun _ => none, logins := fun _ => none, requests := fun _ => none
    log := [] }

def putLogin (s : Gate D) (id : Nat) (call : LoginCall) : Gate D :=
  { s with logins := Function.update s.logins id (some call) }

def putRequest (s : Gate D) (id : Nat) (request : GateRequest) : Gate D :=
  { s with requests := Function.update s.requests id (some request) }

/-- The administrator and the calls of `CreateAdmin`. -/
def setupState (s : Gate D) : Setup := { admin := s.db.admin, calls := s.calls }

end Gate

/-- A step of a setup keeps the administrator there is. -/
theorem Setup.admin_step {s : Setup} {row : AdminRow} (h : s.admin = some row) (violation : String)
    (a : Setup.Action) : (s.step violation a).admin = some row := by
  cases a with
  | call id username password =>
    unfold Setup.step
    dsimp only
    split <;> exact h
  | check id fails | hash id encoded =>
    unfold Setup.step
    dsimp only
    split
    next => split <;> exact h
    next => exact h
  | insert id fault =>
    unfold Setup.step
    dsimp only
    split
    next =>
      split
      next =>
        unfold Setup.insert
        split
        next text applied => cases applied <;> simp [h]
        next => rw [h]; exact h
      next => exact h
    next => exact h

namespace Database

theorem format_expires (now : Time) :
    (now.add sessionLifetime).format = (now.add sessionLifetime).format := rfl

/-- The row of a new session. -/
def sessionOf (adminID : Int) (now : Time) : Session :=
  { adminID, expiresAt := (now.add sessionLifetime).format, createdAt := now.format, login := now
    expiresAt_eq := format_expires now }

/-- A session of the administrator may be inserted. -/
theorem owned_insert {db : Database D} {row : AdminRow} {adminID : Int}
    (hrow : db.admin = some row ∧ row.id = adminID) (digest : D) (now : Time) (digest' : D)
    (s : Session)
    (h : (db.sessions.insert digest (sessionOf adminID now)).lookup digest' = some s) :
    ∃ row, db.admin = some row ∧ row.id = s.adminID := by
  rw [Map.lookup_insert] at h
  split at h
  next =>
    cases h
    exact ⟨row, hrow⟩
  next => exact db.owned digest' s h

/-- The `INSERT` of a session. The token hash is a primary key, and `admin_id` refers to the
administrator. -/
def insertSession (db : Database D) (adminID : Int) (digest : D) (now : Time) :
    Option (Session × Database D) :=
  match hadmin : db.admin, db.session? digest with
  | some row, none =>
    if hid : row.id = adminID then
      some (sessionOf adminID now, { db with
        sessions := db.sessions.insert digest (sessionOf adminID now)
        owned := owned_insert ⟨hadmin, hid⟩ digest now })
    else none
  | _, _ => none

/-- What the `INSERT` of a session has done. -/
theorem insertSession_some {db db' : Database D} {adminID : Int} {digest : D} {now : Time}
    {session : Session}
    (h : db.insertSession adminID digest now = some (session, db')) :
    db'.admin = db.admin ∧ session.adminID = adminID ∧ session.expires = now.add sessionLifetime ∧
      ∀ digest', db'.session? digest' =
        if digest' = digest then some session else db.session? digest' := by
  unfold Database.insertSession at h
  split at h
  next row hadmin hfree =>
    split at h
    next hid =>
      cases h
      exact ⟨rfl, rfl, rfl, fun digest' => Map.lookup_insert _ _ _ _⟩
    next => cases h
  next => cases h

/-- A login without the administrator's password and username is refused. -/
theorem login_refused {db : Database D} {verify : String → String → Option Bool}
    {username password : String} (h : ∀ row, db.admin = some row →
      ¬ (verify password row.passwordHash = some true ∧ row.username = username)) (digest : D)
    (now : Time) : db.login verify digest now username password = .error .invalidLogin := by
  unfold login
  split
  next => rfl
  next row hadmin => exact if_neg (h row hadmin)

/-- A login whose password is verified comes down to its `INSERT`. -/
theorem login_eq {db : Database D} {verify : String → String → Option Bool} {row : AdminRow}
    {username password : String} (hadmin : db.admin = some row)
    (hok : verify password row.passwordHash = some true ∧ row.username = username) (digest : D)
    (now : Time) : db.login verify digest now username password =
      match db.insertSession row.id digest now with
      | some (session, db) => .ok (session.expires, db)
      | none => .error .failed := by
  unfold login insertSession
  split
  next hnone =>
    rw [hadmin] at hnone
    cases hnone
  next row' hrow =>
    rw [hadmin] at hrow
    cases hrow
    rw [if_pos hok]
    split
    next session htaken =>
      split
      next session' db' heq =>
        split at heq
        next hfree =>
          rw [htaken] at hfree
          cases hfree
        next => cases heq
      next => rfl
    next hfree =>
      split
      next session' db' heq =>
        split at heq
        next row' _ hrow _ =>
          rw [hadmin] at hrow
          cases hrow
          rw [dif_pos rfl] at heq
          cases heq
          rfl
        next => cases heq
      next heq =>
        split at heq
        next row' _ hrow _ =>
          rw [hadmin] at hrow
          cases hrow
          rw [dif_pos rfl] at heq
          cases heq
        next hnot => exact (hnot row hadmin hfree).elim

end Database

namespace Gate

/-- A step of `CreateAdmin`. -/
def setup (c : Crypto D) (s : Gate D) (a : Setup.Action) : Gate D :=
  { s with
    db := { s.db with
      admin := (s.setupState.step c.violation a).admin
      owned := fun digest session h => by
        obtain ⟨row, hrow, hid⟩ := s.db.owned digest session h
        exact ⟨row, Setup.admin_step hrow c.violation a, hid⟩ }
    calls := (s.setupState.step c.violation a).calls }

/-- The `SELECT` of `Login`. -/
def read (s : Gate D) (call : LoginCall) (fails : Bool) : LoginCall :=
  { call with progress := if fails then .refused .failed else .read s.db.admin }

/-- `verifyPassword`, which is called whether there is an administrator or not. -/
def verify (c : Crypto D) (call : LoginCall) : Option AdminRow → LoginCall
  | none => { call with progress := .refused .invalidLogin }
  | some row =>
    { call with
      progress :=
        if c.verify call.password row.passwordHash = some true ∧ row.username = call.username then
          .verified row
        else .refused .invalidLogin }

/-- The `INSERT` of `Login`. -/
def insert (c : Crypto D) (s : Gate D) (id : Nat) (call : LoginCall) (row : AdminRow)
    (fault : Option Bool) : Option String → Gate D
  | none => s.putLogin id { call with progress := .refused .failed }
  | some token =>
    match s.db.insertSession row.id (c.digest token) s.now, fault with
    | some (session, db), none =>
      { s.putLogin id { call with progress := .done token session.expires } with
        db, log := s.log ++ [.stored id row (c.digest token) session] }
    | some (session, db), some true =>
      { s.putLogin id { call with progress := .refused .failed } with
        db, log := s.log ++ [.stored id row (c.digest token) session] }
    | _, _ => s.putLogin id { call with progress := .refused .failed }

/-- `RequireSession` with a cookie. -/
def requireSession (c : Crypto D) (s : Gate D) (id : Nat) (request : GateRequest) (fails : Bool)
    (token : String) : Gate D :=
  if token = "" then s.putRequest id { request with progress := .refused 401 }
  else if fails then s.putRequest id { request with progress := .refused 500 }
  else
    match s.db.authenticate (c.digest token) s.now with
    | .ok admin =>
      { s.putRequest id { request with progress := .handled (some admin) } with
        log := s.log ++ [.checked id (c.digest token) s.now (some admin)] }
    | .error _ =>
      { s.putRequest id { request with progress := .refused 401 } with
        log := s.log ++ [.checked id (c.digest token) s.now none] }

/-- `RequireSession`, or nothing. -/
def enter (c : Crypto D) (s : Gate D) (id : Nat) (request : GateRequest) (fails : Bool) : Gate D :=
  if request.endpoint.requiresSession then
    match request.cookie with
    | none => s.putRequest id { request with progress := .refused 401 }
    | some token => s.requireSession c id request fails token
  else s.putRequest id { request with progress := .handled none }

/-- `Logout`, with the token of the context. -/
def logout (c : Crypto D) (s : Gate D) (id : Nat) (request : GateRequest) (admin : Option Admin)
    (fault : Option Bool) : Gate D :=
  let digest := c.digest (request.cookie.getD "")
  let status := if fault.isSome then 500 else 204
  let s' := s.putRequest id { request with progress := .answered admin status }
  if fault = some false then s'
  else { s' with db := s.db.logout digest, log := s.log ++ [.removed id digest] }

def step (c : Crypto D) (s : Gate D) : Action → Gate D
  | .wait ns => { s with now := ⟨s.now.ns + ns⟩ }
  | .setup a => s.setup c a
  | .login id username password =>
    match s.logins id with
    | none => s.putLogin id { username, password, progress := .begun }
    | some _ => s
  | .read id fails =>
    match s.logins id with
    | some call =>
      match call.progress with
      | .begun => s.putLogin id (s.read call fails)
      | _ => s
    | none => s
  | .verify id =>
    match s.logins id with
    | some call =>
      match call.progress with
      | .read row => s.putLogin id (verify c call row)
      | _ => s
    | none => s
  | .insert id token fault =>
    match s.logins id with
    | some call =>
      match call.progress with
      | .verified row => s.insert c id call row fault token
      | _ => s
    | none => s
  | .request id endpoint cookie =>
    match s.requests id with
    | none => s.putRequest id { endpoint, cookie, progress := .arrived }
    | some _ => s
  | .enter id fails =>
    match s.requests id with
    | some request =>
      match request.progress with
      | .arrived => s.enter c id request fails
      | _ => s
    | none => s
  | .logout id fault =>
    match s.requests id with
    | some request =>
      match request.endpoint, request.progress with
      | .logout, .handled admin => s.logout c id request admin fault
      | _, _ => s
    | none => s

/-! ## A login alone -/

/-- The steps of a login whose statements succeed. -/
def loginSteps (id : Nat) (username password token : String) : List Action :=
  [.login id username password, .read id false, .verify id, .insert id (some token) none]

/-- **A login that nothing comes between does what the two tables have of it.** -/
theorem login_alone (c : Crypto D) (s : Gate D) {id : Nat} (hnew : s.logins id = none)
    (username password token : String) :
    let s' := run (step c) s (loginSteps id username password token)
    match s.db.login c.verify (c.digest token) s.now username password with
    | .ok (expires, db) => s'.db = db ∧
        ∃ call, s'.logins id = some call ∧ call.progress = .done token expires
    | .error err => s'.db = s.db ∧
        ∃ call, s'.logins id = some call ∧ call.progress = .refused err := by
  intro s'
  have hread : run (step c) s [.login id username password, .read id false] =
      s.putLogin id { username, password, progress := .read s.db.admin } := by
    simp [step, hnew, putLogin, read]
  have hrun : s' = run (step c) (s.putLogin id { username, password, progress := .read s.db.admin })
      [.verify id, .insert id (some token) none] := by
    rw [← hread, ← run_append]
    rfl
  rw [hrun]
  cases hadmin : s.db.admin with
  | none =>
    rw [Database.login_refused fun row hrow => by rw [hadmin] at hrow; cases hrow]
    simp [step, putLogin, verify]
  | some row =>
    by_cases hok : c.verify password row.passwordHash = some true ∧ row.username = username
    · have hverified : run (step c)
          (s.putLogin id { username, password, progress := .read (some row) })
          [.verify id, .insert id (some token) none] =
          (s.putLogin id { username, password, progress := .verified row }).insert c id
            { username, password, progress := .verified row } row none (some token) := by
        simp [step, putLogin, verify, hok]
      rw [hverified, Database.login_eq hadmin hok]
      unfold insert
      have hinsert :
          (s.putLogin id { username, password, progress := .verified row }).db.insertSession row.id
            (c.digest token)
            (s.putLogin id { username, password, progress := .verified row }).now =
          s.db.insertSession row.id (c.digest token) s.now := rfl
      dsimp only
      rw [hinsert]
      cases s.db.insertSession row.id (c.digest token) s.now with
      | none => simp [putLogin]
      | some result => simp [putLogin]
    · have hwrong : ∀ row', s.db.admin = some row' →
          ¬ (c.verify password row'.passwordHash = some true ∧ row'.username = username) := by
        intro row' hrow
        rw [hadmin] at hrow
        cases hrow
        exact hok
      rw [Database.login_refused hwrong]
      simp [step, putLogin, verify, hok]

end Gate

end TinyProbe.Auth
