import TinyProbe.Base.Rfc3339
import TinyProbe.Lib.Map

/-!
# Sessions of the administrator

The tables `admins` and `sessions` and the statements `internal/auth/service.go` makes on them. A
session has the text of its expiry, and `Authenticate` has the database compare that text with the
text of its own clock reading. What the tables promise is a field: a session belongs to the
administrator, and its text is that of the instant seven days after its login. `login` is a record
of that instant that no statement reads.

`Authenticate` follows the clock (`accepted_iff`) unless it is called within the second of the
expiry and the fraction of one of the two instants begins with that of the other. A session that
expires on a whole second is accepted for the rest of that second (`expired_accepted`).

A digest stands for the token it is made of. Statements are taken to succeed.
-/

namespace TinyProbe.Auth

/-- `Admin`. -/
structure Admin where
  id : Int
  username : String
deriving DecidableEq

/-- A row of `admins`. -/
structure AdminRow extends Admin where
  passwordHash : String

/-- The lifetime of a session. -/
def sessionLifetime : Duration := 7 * 24 * 3600 * Time.second

/-- A row of `sessions`. -/
structure Session where
  adminID : Int
  expiresAt : List Char
  createdAt : List Char
  login : Time
  expiresAt_eq : expiresAt = (login.add sessionLifetime).format

/-- The instant a session expires. -/
def Session.expires (s : Session) : Time := s.login.add sessionLifetime

/-- The two tables. `CHECK (id = 1)` leaves room for one administrator. -/
structure Database (D : Type) [DecidableEq D] where
  admin : Option AdminRow
  sessions : Map D Session
  owned : ∀ digest s, AList.lookup digest sessions = some s →
    ∃ row, admin = some row ∧ row.id = s.adminID

inductive AuthError where
  | setupComplete
  | invalidInput
  | invalidLogin
  | unauthenticated
  /-- The hash cannot be computed, or a digest is taken. -/
  | failed
deriving DecidableEq

variable {D : Type} [DecidableEq D]

namespace Database

def empty : Database D :=
  { admin := none, sessions := ∅, owned := fun _ _ h => by cases h }

/-- The session of a digest. -/
def session? (db : Database D) (digest : D) : Option Session := AList.lookup digest db.sessions

/-- `CreateAdmin`; `hash` is what `hashPassword` returns. -/
def createAdmin (db : Database D) (username password : String) (hash : Option String) :
    Except AuthError (Database D) :=
  if username.utf8ByteSize < 1 ∨ 64 < username.utf8ByteSize ∨ password.utf8ByteSize < 12 ∨
      128 < password.utf8ByteSize then .error .invalidInput
  else
    match hadmin : db.admin, hash with
    | some _, _ => .error .setupComplete
    | none, none => .error .failed
    | none, some passwordHash =>
      .ok { db with
        admin := some { id := 1, username, passwordHash }
        owned := fun digest s h => by
          obtain ⟨row, hrow, _⟩ := db.owned digest s h
          rw [hadmin] at hrow
          cases hrow }

/-- `Login`; `verify` is `verifyPassword` and `digest` what `tokenPair` has drawn. -/
def login (db : Database D) (verify : String → String → Option Bool) (digest : D) (now : Time)
    (username password : String) : Except AuthError (Time × Database D) :=
  match hadmin : db.admin with
  -- the password is verified against `dummyPasswordHash`, and the result is not looked at
  | none => .error .invalidLogin
  | some row =>
    if verify password row.passwordHash = some true ∧ row.username = username then
      match db.session? digest with
      | some _ => .error .failed
      | none =>
        .ok (now.add sessionLifetime, { db with
          sessions := db.sessions.insert digest
            { adminID := row.id, expiresAt := (now.add sessionLifetime).format
              createdAt := now.format, login := now, expiresAt_eq := rfl }
          owned := fun digest' s h => by
            have h' := (Map.lookup_insert db.sessions digest' _ _).symm.trans h
            split at h'
            next =>
              cases h'
              exact ⟨row, hadmin, rfl⟩
            next => exact db.owned digest' s h' })
    else .error .invalidLogin

/-- `Authenticate`: the join of the session, unless it has expired, with its administrator. -/
def authenticate (db : Database D) (digest : D) (now : Time) : Except AuthError Admin :=
  match db.session? digest with
  | none => .error .unauthenticated
  | some s =>
    if now.format < s.expiresAt then
      match db.admin with
      | some row => if row.id = s.adminID then .ok row.toAdmin else .error .unauthenticated
      | none => .error .unauthenticated
    else .error .unauthenticated

/-- `Logout`. -/
def logout (db : Database D) (digest : D) : Database D :=
  { db with
    sessions := db.sessions.erase digest
    owned := fun digest' s h => by
      have h' := (Map.lookup_erase db.sessions digest' digest).symm.trans h
      split at h'
      next => cases h'
      next => exact db.owned digest' s h' }

section Laws

variable {db : Database D} {digest : D} {s : Session}

/-- The text of the expiry decides. -/
theorem authenticate_iff (h : db.session? digest = some s) (now : Time) :
    (∃ admin, db.authenticate digest now = .ok admin) ↔ now.format < s.expires.format := by
  obtain ⟨row, hrow, hid⟩ := db.owned digest s h
  unfold authenticate
  rw [h]
  dsimp only
  rw [hrow, Session.expires, ← s.expiresAt_eq]
  dsimp only
  rw [if_pos hid]
  split
  next hlt => exact ⟨fun _ => hlt, fun _ => ⟨_, rfl⟩⟩
  next hle => exact ⟨(fun ⟨admin, herr⟩ => by cases herr), fun hlt => absurd hlt hle⟩

/-- **A session is accepted until its expiry**, exactly as long as the instant of the call and that
of the expiry do not overlap within a second. The two are compared as text, and there the fraction
of the one may begin that of the other, so that what comes after it is compared with the `Z`. -/
theorem accepted_iff (h : db.session? digest = some s) {now : Time}
    (hexpires : s.expires.FourDigitYear) (hnow : now.FourDigitYear) :
    ((∃ admin, db.authenticate digest now = .ok admin) ↔ now.ns < s.expires.ns) ↔
      ¬ now.Overlaps s.expires := by
  rw [authenticate_iff h]
  exact Time.format_lt_iff hnow hexpires

end Laws

/-- A session from a login at midnight of 1 January 1970. It expires at midnight of 8 January. -/
def midnight : Session where
  adminID := 1
  expiresAt := ((Time.ofUnix 0).add sessionLifetime).format
  createdAt := (Time.ofUnix 0).format
  login := .ofUnix 0
  expiresAt_eq := rfl

def signedIn : Database Nat where
  admin := some { id := 1, username := "xiaodi", passwordHash := "" }
  sessions := (∅ : Map Nat Session).insert 7 midnight
  owned := fun digest s h => by
    have h' := (Map.lookup_insert ∅ digest 7 midnight).symm.trans h
    split at h'
    next =>
      cases h'
      exact ⟨_, rfl, rfl⟩
    next => cases h'

/-- In the second before it expires. -/
theorem accepted_midnight :
    ((∃ admin, signedIn.authenticate 7 (.ofUnix 604799) = .ok admin) ↔
      (Time.ofUnix 604799).ns < midnight.expires.ns) ↔
        ¬ (Time.ofUnix 604799).Overlaps midnight.expires :=
  accepted_iff rfl (by decide +kernel) (by decide +kernel)

/-- Half a second after it has expired. -/
theorem expired_accepted : signedIn.session? 7 = some midnight ∧
    midnight.expires.FourDigitYear ∧ (Time.mk 604800500000000).FourDigitYear ∧
    midnight.expires.ns < 604800500000000 ∧
    ∃ admin, signedIn.authenticate 7 ⟨604800500000000⟩ = .ok admin := by
  refine ⟨rfl, by decide +kernel, by decide +kernel, by decide +kernel, ?_⟩
  exact (authenticate_iff rfl _).mpr (by decide +kernel)

end Database

end TinyProbe.Auth
