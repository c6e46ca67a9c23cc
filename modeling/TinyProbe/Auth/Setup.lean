import TinyProbe.Auth.Sessions
import TinyProbe.Lib.Run
import Mathlib.Data.List.Infix
import Mathlib.Logic.Function.Basic

/-!
# First-run setup

Any number of calls of `CreateAdmin` at once. A call checks its input and asks `SetupRequired`,
hashes the password and inserts the row, and the calls interleave between these steps. The
password hash is whatever `hashPassword` has returned. A statement may fail for a reason outside
the program, with any error text, and a failed `INSERT` may have inserted its row all the same.

Nothing in the program deletes or changes a row of `admins`, so once a call has returned nil its
row stays, and every other call is refused (`single_winner`). A call that nothing comes between
does what `Database.createAdmin` has of it (`createAdmin_alone`).
-/

namespace TinyProbe.Auth

open Run

/-- How far a call of `CreateAdmin` has got. -/
inductive Progress where
  /-- `SetupRequired` is to be asked. -/
  | begun
  /-- The password is to be hashed. -/
  | required
  /-- The row is to be inserted. -/
  | hashed (encoded : String)
  /-- The call has returned nil; this is the hash it has inserted. -/
  | created (encoded : String)
  | refused (err : AuthError)
deriving DecidableEq

/-- A call of `CreateAdmin`; `met` says if it has met a hashing error or a database error other than
a row that is there already. -/
structure Call where
  username : String
  password : String
  progress : Progress
  met : Bool
deriving DecidableEq

/-- The input that `CreateAdmin` goes on with. -/
def ValidInput (username password : String) : Prop :=
  ¬ (username.utf8ByteSize < 1 ∨ 64 < username.utf8ByteSize ∨ password.utf8ByteSize < 12 ∨
    128 < password.utf8ByteSize)

instance (username password : String) : Decidable (ValidInput username password) :=
  inferInstanceAs (Decidable (¬ _))

def Call.Valid (call : Call) : Prop := ValidInput call.username call.password

/-- The row a call inserts. -/
def Call.row (call : Call) (encoded : String) : AdminRow :=
  { id := 1, username := call.username, passwordHash := encoded }

/-- `strings.Contains(err.Error(), "UNIQUE")`. -/
def isUnique (text : String) : Prop := "UNIQUE".toList <:+: text.toList

instance : DecidablePred isUnique := fun _ => inferInstanceAs (Decidable (_ <:+: _))

/-- What `CreateAdmin` makes of an error of the `INSERT`. -/
def insertError (text : String) : AuthError := if isUnique text then .setupComplete else .failed

/-- The table, and the calls that were made. -/
structure Setup where
  admin : Option AdminRow
  calls : Nat → Option Call

namespace Setup

inductive Action where
  | call (id : Nat) (username password : String)
  | check (id : Nat) (fails : Bool)
  | hash (id : Nat) (encoded : Option String)
  /-- The `INSERT`; `fault` is the text of an error, and if the row was inserted in spite of it. -/
  | insert (id : Nat) (fault : Option (String × Bool))

def start (admin : Option AdminRow) : Setup := { admin, calls := fun _ => none }

/-- `SetupRequired`. -/
def setupRequired (s : Setup) (fails : Bool) : Except AuthError Bool :=
  if fails then .error .failed else .ok s.admin.isNone

def put (s : Setup) (id : Nat) (call : Call) : Setup :=
  { s with calls := Function.update s.calls id (some call) }

def checkInput (username password : String) : Call :=
  { username, password, met := false
    progress := if ValidInput username password then .begun else .refused .invalidInput }

def check (s : Setup) (call : Call) (fails : Bool) : Call :=
  match s.setupRequired fails with
  | .error err => { call with progress := .refused err, met := true }
  | .ok false => { call with progress := .refused .setupComplete }
  | .ok true => { call with progress := .required }

def hash (call : Call) : Option String → Call
  | none => { call with progress := .refused .failed, met := true }
  | some encoded => { call with progress := .hashed encoded }

/-- The `INSERT` of a call; `violation` is the error text of a row that is there already. -/
def insert (violation : String) (s : Setup) (id : Nat) (call : Call) (encoded : String) :
    Option (String × Bool) → Setup
  | some (text, applied) =>
    { s.put id { call with progress := .refused (insertError text), met := true } with
      admin := if applied then s.admin.or (some (call.row encoded)) else s.admin }
  | none =>
    match s.admin with
    | some _ => s.put id { call with progress := .refused (insertError violation) }
    | none =>
      { s.put id { call with progress := .created encoded } with
        admin := some (call.row encoded) }

def step (violation : String) (s : Setup) : Action → Setup
  | .call id username password =>
    match s.calls id with
    | none => s.put id (checkInput username password)
    | some _ => s
  | .check id fails =>
    match s.calls id with
    | some call => if call.progress = .begun then s.put id (s.check call fails) else s
    | none => s
  | .hash id encoded =>
    match s.calls id with
    | some call => if call.progress = .required then s.put id (hash call encoded) else s
    | none => s
  | .insert id fault =>
    match s.calls id with
    | some call =>
      match call.progress with
      | .hashed encoded => s.insert violation id call encoded fault
      | _ => s
    | none => s

/-- The call has returned nil, with this hash. -/
def Won (s : Setup) (id : Nat) (encoded : String) : Prop :=
  ∃ call, s.calls id = some call ∧ call.progress = .created encoded

/-- What is left of a call, when nothing goes wrong. -/
def rest (id : Nat) (encoded : String) : List Action :=
  [.check id false, .hash id (some encoded), .insert id none]

/-! ## What a step does -/

/-- A step of one call: `call'` is what it is then, and `admin'` the table. -/
inductive Moves (s : Setup) (id : Nat) (call' : Call) (admin' : Option AdminRow) : Prop where
  /-- The call is made. -/
  | made (hnew : s.calls id = none) (hinput : call' = checkInput call'.username call'.password)
      (hadmin : admin' = s.admin)
  /-- It goes on. -/
  | on (call : Call) (hcall : s.calls id = some call) (progress : Progress)
      (hbefore : ∀ err, call.progress ≠ .refused err) (hnot : ∀ e, call.progress ≠ .created e)
      (hafter : ∀ err, progress ≠ .refused err) (hstill : ∀ e, progress ≠ .created e)
      (heq : call' = { call with progress }) (hadmin : admin' = s.admin)
  /-- It is refused, and if nothing went wrong, because there is an administrator. -/
  | refused (call : Call) (hcall : s.calls id = some call) (err : AuthError) (met : Bool)
      (hnot : ∀ e, call.progress ≠ .created e) (heq : call' = { call with progress := .refused err, met })
      (herr : met = false → err = .setupComplete)
      (hadmin : admin' = s.admin ∨ s.admin = none)
  /-- It inserts its row. -/
  | created (call : Call) (hcall : s.calls id = some call) (encoded : String)
      (heq : call' = { call with progress := .created encoded }) (hnone : s.admin = none)
      (hadmin : admin' = some (call.row encoded))

section Steps

variable {s : Setup} {violation : String} {id : Nat} {call : Call}

/-- **A step leaves everything as it is, or is a step of one call.** -/
theorem step_cases (hviolation : isUnique violation) (s : Setup) (a : Action) :
    s.step violation a = s ∨ ∃ id call' admin', Moves s id call' admin' ∧
      s.step violation a = { s.put id call' with admin := admin' } := by
  cases a with
  | call id username password =>
    unfold step
    dsimp only
    split
    next hnew => exact Or.inr ⟨id, _, s.admin, .made hnew rfl rfl, rfl⟩
    next => exact Or.inl rfl
  | check id fails =>
    unfold step
    dsimp only
    split
    next call hcall =>
      split
      next hbegun =>
        have hnot : ∀ e, call.progress ≠ .created e := fun e h => by rw [hbegun] at h; cases h
        refine Or.inr ⟨id, _, s.admin, ?_, rfl⟩
        unfold check setupRequired
        cases fails with
        | true => exact .refused call hcall _ true hnot rfl (fun h => by cases h) (Or.inl rfl)
        | false =>
          rw [if_neg Bool.false_ne_true]
          cases s.admin.isNone with
          | true =>
            exact .on call hcall .required (fun e h => by rw [hbegun] at h; cases h) hnot
              (fun e h => by cases h) (fun e h => by cases h) rfl rfl
          | false => exact .refused call hcall _ call.met hnot rfl (fun _ => rfl) (Or.inl rfl)
      next => exact Or.inl rfl
    next => exact Or.inl rfl
  | hash id encoded =>
    unfold step
    dsimp only
    split
    next call hcall =>
      split
      next hrequired =>
        have hnot : ∀ e, call.progress ≠ .created e := fun e h => by rw [hrequired] at h; cases h
        refine Or.inr ⟨id, _, s.admin, ?_, rfl⟩
        cases encoded with
        | none => exact .refused call hcall _ true hnot rfl (fun h => by cases h) (Or.inl rfl)
        | some encoded =>
          exact .on call hcall (.hashed encoded) (fun e h => by rw [hrequired] at h; cases h) hnot
            (fun e h => by cases h) (fun e h => by cases h) rfl rfl
      next => exact Or.inl rfl
    next => exact Or.inl rfl
  | insert id fault =>
    unfold step
    dsimp only
    split
    next call hcall =>
      split
      next encoded hhashed =>
        have hnot : ∀ e, call.progress ≠ .created e := fun e h => by rw [hhashed] at h; cases h
        unfold insert
        split
        next text applied =>
          refine Or.inr ⟨id, _, _, .refused call hcall _ true hnot rfl (fun h => by cases h) ?_, rfl⟩
          cases hadmin : s.admin with
          | none => exact Or.inr rfl
          | some row =>
            left
            cases applied with
            | true => rfl
            | false => rfl
        next =>
          split
          next row hadmin =>
            refine Or.inr ⟨id, _, s.admin, .refused call hcall _ call.met hnot rfl ?_ (Or.inl rfl), rfl⟩
            exact fun _ => if_pos hviolation
          next hadmin => exact Or.inr ⟨id, _, _, .created call hcall encoded rfl hadmin rfl, rfl⟩
      next => exact Or.inl rfl
    next => exact Or.inl rfl

theorem calls_put {call' : Call} {admin' : Option AdminRow} (j : Nat) :
    ({ s.put id call' with admin := admin' } : Setup).calls j =
      if j = id then some call' else s.calls j :=
  Function.update_apply s.calls id (some call') j

/-- A call that is new has inserted nothing, and is refused for its input only. -/
theorem progress_checkInput (username password : String) :
    (∀ e, (checkInput username password).progress ≠ .created e) ∧
      ∀ err, (checkInput username password).progress = .refused err →
        ¬ (checkInput username password).Valid := by
  unfold checkInput
  dsimp only
  by_cases hinput : ValidInput username password
  · rw [if_pos hinput]
    exact ⟨fun e h => (by cases h), fun err h => (by cases h)⟩
  · rw [if_neg hinput]
    exact ⟨fun e h => (by cases h), fun _ _ => hinput⟩

end Steps

/-! ## Every run -/

/-- What holds in every run. -/
structure Inv (s : Setup) : Prop where
  winner : ∀ i e call, s.calls i = some call → call.progress = .created e →
    s.admin = some (call.row e)
  unique : ∀ i j e e', s.Won i e → s.Won j e' → i = j
  refused : ∀ i err call, s.calls i = some call → call.progress = .refused err → call.Valid →
    call.met = false → err = .setupComplete

section Runs

variable {s : Setup} {violation : String} {i : Nat} {e : String}

/-- No call has won before there are calls. -/
theorem inv_start (admin : Option AdminRow) : (start admin).Inv where
  winner _ _ _ h := by cases h
  unique _ _ _ _ h := by
    obtain ⟨_, hcall, _⟩ := h
    cases hcall
  refused _ _ _ h := by cases h

/-- When a call has won there is a row, so no other call can insert one. -/
theorem Inv.admin (h : s.Inv) (hwon : s.Won i e) : s.admin ≠ none := by
  obtain ⟨call, hcall, hcreated⟩ := hwon
  rw [h.winner i e call hcall hcreated]
  exact Option.some_ne_none _

/-- A call that wins has found no administrator. -/
theorem Moves.won {id : Nat} {call' : Call} {admin' : Option AdminRow} (hm : Moves s id call' admin')
    (hcreated : call'.progress = .created e) : s.admin = none ∧ admin' = some (call'.row e) := by
  cases hm with
  | made _ hinput _ =>
    rw [hinput] at hcreated
    exact absurd hcreated ((progress_checkInput _ _).1 e)
  | on _ _ _ _ _ _ hstill heq _ =>
    rw [heq] at hcreated
    exact absurd hcreated (hstill e)
  | refused _ _ _ _ _ heq _ _ =>
    rw [heq] at hcreated
    cases hcreated
  | created call _ encoded heq hnone hadmin =>
    rw [heq] at hcreated ⊢
    cases hcreated
    exact ⟨hnone, hadmin⟩

/-- A step leaves a row of `admins` that is there as it is. -/
theorem Moves.admin {id : Nat} {call' : Call} {admin' : Option AdminRow} (hm : Moves s id call' admin')
    (hsome : s.admin ≠ none) : admin' = s.admin := by
  cases hm with
  | made _ _ hadmin => exact hadmin
  | on _ _ _ _ _ _ _ _ hadmin => exact hadmin
  | refused _ _ _ _ _ _ _ hadmin => exact hadmin.resolve_right hsome
  | created _ _ _ _ hnone _ => exact absurd hnone hsome

/-- Every step of any call keeps the invariant, whatever fails in it. -/
theorem Inv.step (h : s.Inv) (hviolation : isUnique violation) (a : Action) :
    (s.step violation a).Inv := by
  obtain heq | ⟨id, call', admin', hm, heq⟩ := step_cases hviolation s a
  · rw [heq]
    exact h
  rw [heq]
  have hcases : ∀ {j e}, ({ s.put id call' with admin := admin' } : Setup).Won j e →
      j = id ∧ s.admin = none ∨ j ≠ id ∧ s.Won j e := by
    rintro j e ⟨call, hcall, hcreated⟩
    rw [calls_put] at hcall
    split at hcall
    next hj =>
      cases hcall
      exact Or.inl ⟨hj, (hm.won hcreated).1⟩
    next hj => exact Or.inr ⟨hj, call, hcall, hcreated⟩
  exact
    { winner := fun j e call hcall hcreated => by
        show admin' = some (call.row e)
        rw [calls_put] at hcall
        split at hcall
        next =>
          cases hcall
          exact (hm.won hcreated).2
        next =>
          have hadmin := h.winner j e call hcall hcreated
          exact (hm.admin (h.admin ⟨call, hcall, hcreated⟩)).trans hadmin
      unique := fun j k e e' hj hk => by
        rcases hcases hj with ⟨rfl, hnone⟩ | ⟨_, hj⟩
        · rcases hcases hk with ⟨rfl, _⟩ | ⟨_, hk⟩
          · rfl
          · exact absurd hnone (h.admin hk)
        · rcases hcases hk with ⟨_, hnone⟩ | ⟨_, hk⟩
          · exact absurd hnone (h.admin hj)
          · exact h.unique j k e e' hj hk
      refused := fun j err call hcall hrefused hvalid hmet => by
        rw [calls_put] at hcall
        split at hcall
        next =>
          cases hcall
          cases hm with
          | made _ hinput _ =>
            rw [hinput] at hrefused hvalid
            exact absurd hvalid ((progress_checkInput _ _).2 err hrefused)
          | on _ _ _ _ _ hafter _ heq _ =>
            rw [heq] at hrefused
            exact absurd hrefused (hafter err)
          | refused _ _ _ _ _ heq herr _ =>
            rw [heq] at hrefused hmet
            cases hrefused
            exact herr hmet
          | created _ _ _ heq _ _ =>
            rw [heq] at hrefused
            cases hrefused
        next => exact h.refused j err call hcall hrefused hvalid hmet }

/-- **A winner stays**, and so does its row. -/
theorem Inv.won_step (h : s.Inv) (hviolation : isUnique violation) (hwon : s.Won i e) (a : Action) :
    (s.step violation a).Won i e ∧ (s.step violation a).admin = s.admin := by
  have hsome := h.admin hwon
  obtain ⟨call, hcall, hcreated⟩ := hwon
  obtain heq | ⟨id, call', admin', hm, heq⟩ := step_cases hviolation s a
  · rw [heq]
    exact ⟨⟨call, hcall, hcreated⟩, rfl⟩
  rw [heq]
  refine ⟨⟨call, ?_, hcreated⟩, hm.admin hsome⟩
  rw [calls_put]
  split
  next hid =>
    rw [← hid] at hm
    have hother : ∀ {other}, s.calls i = some other → other.progress = .created e := fun hother => by
      rw [hcall] at hother
      cases hother
      exact hcreated
    -- a call that has returned takes no step
    cases hm with
    | made hnew _ _ =>
      rw [hnew] at hcall
      cases hcall
    | on _ hold _ _ hnot _ _ _ _ => exact absurd (hother hold) (hnot e)
    | refused _ hold _ _ hnot _ _ _ => exact absurd (hother hold) (hnot e)
    | created _ _ _ _ hnone _ => exact absurd hnone hsome
  next => exact hcall

/-- The invariant holds after every interleaving of any number of calls. -/
theorem inv_run (hviolation : isUnique violation) (admin : Option AdminRow) (as : List Action) :
    (run (step violation) (start admin) as).Inv :=
  run_invariant (fun _ a h => h.step hviolation a) (inv_start admin) as

/-- The call that has won stays the winner, and its row stays, in every later run. -/
theorem Inv.won_run (h : s.Inv) (hviolation : isUnique violation) (hwon : s.Won i e)
    (bs : List Action) :
    (run (Setup.step violation) s bs).Won i e ∧
      (run (Setup.step violation) s bs).admin = s.admin := by
  have hkept : ∀ t : Setup, ∀ a, t.Inv ∧ t.Won i e ∧ t.admin = s.admin →
      (t.step violation a).Inv ∧ (t.step violation a).Won i e ∧
        (t.step violation a).admin = s.admin := by
    rintro t a ⟨ht, hwont, hadmin⟩
    obtain ⟨hwon', hadmin'⟩ := ht.won_step hviolation hwont a
    exact ⟨ht.step hviolation a, hwon', hadmin'.trans hadmin⟩
  exact (run_invariant hkept ⟨h, hwon, rfl⟩ bs).2

/-! ## The calls that come after a winner -/

section Late

variable {call : Call} {encoded : String}

theorem calls_put_self (s : Setup) (call : Call) : (s.put i call).calls i = some call := by
  show Function.update s.calls i (some call) i = some call
  exact Function.update_self ..

theorem step_check (hcall : s.calls i = some call) (fails : Bool) :
    s.step violation (.check i fails) =
      if call.progress = .begun then s.put i (s.check call fails) else s := by
  unfold step
  dsimp only
  rw [hcall]

theorem step_hash (hcall : s.calls i = some call) (encoded : Option String) :
    s.step violation (.hash i encoded) =
      if call.progress = .required then s.put i (hash call encoded) else s := by
  unfold step
  dsimp only
  rw [hcall]

/-- A call that has ended takes no step. -/
theorem step_insert_ended (hcall : s.calls i = some call) (hnot : ∀ e, call.progress ≠ .hashed e)
    (fault : Option (String × Bool)) : s.step violation (.insert i fault) = s := by
  unfold step
  dsimp only
  rw [hcall]
  dsimp only
  split
  next encoded hhashed => exact absurd hhashed (hnot encoded)
  next => rfl

/-- The row of a winner is there already. -/
theorem refused_insert (hviolation : isUnique violation) (hadmin : s.admin ≠ none)
    (hcall : s.calls i = some call) (hhashed : call.progress = .hashed encoded) :
    (s.step violation (.insert i none)).calls i =
      some { call with progress := .refused .setupComplete } := by
  obtain ⟨row, hrow⟩ := Option.ne_none_iff_exists'.mp hadmin
  have herror : insertError violation = .setupComplete := if_pos hviolation
  unfold step
  dsimp only
  rw [hcall]
  dsimp only
  rw [hhashed]
  dsimp only
  unfold insert
  rw [hrow]
  dsimp only
  rw [herror]
  exact calls_put_self s _

/-- **A call that is under way is refused**, however far it has got. -/
theorem refused_rest (hviolation : isUnique violation) (hadmin : s.admin ≠ none)
    (hcall : s.calls i = some call) (hpending : ∀ err, call.progress ≠ .refused err)
    (hnot : ∀ e, call.progress ≠ .created e) (encoded : String) :
    (run (step violation) s (rest i encoded)).calls i =
      some { call with progress := .refused .setupComplete } := by
  rw [rest, run_cons, run_cons, run_cons, run_nil, step_check hcall]
  cases hprogress : call.progress with
  | begun =>
    have hcheck : s.check call false = { call with progress := .refused .setupComplete } := by
      obtain ⟨row, hrow⟩ := Option.ne_none_iff_exists'.mp hadmin
      unfold check setupRequired
      rw [if_neg Bool.false_ne_true, hrow]
      rfl
    have hput := calls_put_self (i := i) s { call with progress := .refused .setupComplete }
    rw [if_pos rfl, hcheck, step_hash hput, if_neg (fun h => by cases h),
      step_insert_ended hput (fun e h => by cases h)]
    exact hput
  | required =>
    have hput := calls_put_self (i := i) s { call with progress := .hashed encoded }
    have hadmin' : (s.put i { call with progress := .hashed encoded }).admin ≠ none := hadmin
    have hrefused := refused_insert hviolation hadmin' hput rfl
    rw [if_neg (fun h => by cases h), step_hash hcall, if_pos hprogress]
    exact hrefused
  | hashed encoded' =>
    have hnext : call.progress ≠ .required := fun h => by rw [hprogress] at h; cases h
    rw [if_neg (fun h => by cases h), step_hash hcall, if_neg hnext]
    exact refused_insert hviolation hadmin hcall hprogress
  | created e => exact absurd hprogress (hnot e)
  | refused err => exact absurd hprogress (hpending err)

end Late

end Runs

/-- What a winner means for the others. -/
structure Settled (violation : String) (s : Setup) (i : Nat) (encoded : String) : Prop where
  /-- The row is that of the winner. -/
  row : ∀ call, s.calls i = some call → s.admin = some (call.row encoded)
  /-- It stays so, and `SetupRequired` never returns true. -/
  stays : ∀ bs, (run (step violation) s bs).Won i encoded ∧
    (run (step violation) s bs).admin = s.admin ∧
      ∀ fails, (run (step violation) s bs).setupRequired fails ≠ .ok true
  /-- Another call that nothing went wrong in was refused as coming after the setup. -/
  ended : ∀ j call, j ≠ i → s.calls j = some call → call.Valid → call.met = false →
    (∀ e, call.progress ≠ .created e) ∧
      ∀ err, call.progress = .refused err → err = .setupComplete
  /-- And one that is under way will be. -/
  pending : ∀ j call, j ≠ i → s.calls j = some call → (∀ err, call.progress ≠ .refused err) →
    ∀ e, (run (step violation) s (rest j e)).calls j =
      some { call with progress := .refused .setupComplete }

/-- **The setup has a single winner.** At most one call of `CreateAdmin` returns nil, however the
statements of the calls interleave and whichever of them fail. The row is that of this call and
stays so, `SetupRequired` does not return true any more, and another call is refused as coming after
the setup, unless something else went wrong in it. -/
theorem single_winner (violation : String) (hviolation : isUnique violation)
    (admin : Option AdminRow) (as : List Action) :
    let s := run (step violation) (start admin) as
    (∀ i j e e', s.Won i e → s.Won j e' → i = j) ∧
      ∀ i e, s.Won i e → s.Settled violation i e := by
  intro s
  have hinv : s.Inv := inv_run hviolation admin as
  refine ⟨hinv.unique, fun i e hwon => ?_⟩
  have hother : ∀ {j call}, j ≠ i → s.calls j = some call → ∀ e', call.progress ≠ .created e' :=
    fun hne hcall e' hcreated => hne (hinv.unique _ i e' e ⟨_, hcall, hcreated⟩ hwon)
  constructor
  · intro call hcall
    obtain ⟨call', hcall', hcreated⟩ := hwon
    rw [hcall] at hcall'
    cases hcall'
    exact hinv.winner i e call hcall hcreated
  · intro bs
    obtain ⟨hwon', hadmin⟩ := hinv.won_run hviolation hwon bs
    refine ⟨hwon', hadmin, fun fails => ?_⟩
    obtain ⟨row, hrow⟩ := Option.ne_none_iff_exists'.mp (hinv.admin hwon)
    unfold setupRequired
    rw [hadmin, hrow]
    cases fails with
    | true => exact fun h => by cases h
    | false => exact fun h => by cases h
  · intro j call hne hcall hvalid hmet
    exact ⟨hother hne hcall, fun err hrefused => hinv.refused j err call hcall hrefused hvalid hmet⟩
  · intro j call hne hcall hpending encoded
    exact refused_rest hviolation (hinv.admin hwon) hcall hpending (hother hne hcall) encoded

/-- The error of modernc.org/sqlite. -/
def violation : String := "constraint failed: UNIQUE constraint failed: admins.id (1555)"

/-- Two calls find that a setup is required; the second inserts first. -/
def race : List Action :=
  [.call 0 "alice" "correct horse", .call 1 "mallory" "battery staple", .check 0 false, .check 1 false,
    .hash 0 (some "a"), .hash 1 (some "m"), .insert 1 none, .insert 0 none]

theorem race_settled :
    (run (step violation) (start none) race).Settled violation 1 "m" ∧
      ∃ call, (run (step violation) (start none) race).calls 0 = some call ∧
        call.progress = .refused .setupComplete :=
  ⟨(single_winner violation (by decide) none race).2 1 "m" ⟨_, rfl, rfl⟩, _, rfl, by decide⟩

/-! ## A call alone -/

/-- **A call that nothing comes between does what the two tables have of it.** -/
theorem createAdmin_alone {D : Type} [DecidableEq D] (db : Database D) (violation : String)
    (username password : String) (encoded : Option String) :
    let s := run (step violation) (start db.admin)
      [.call 0 username password, .check 0 false, .hash 0 encoded, .insert 0 none]
    match db.createAdmin username password encoded with
    | .ok db' => s.admin = db'.admin ∧ ∃ e, s.Won 0 e
    | .error err => s.admin = db.admin ∧
        ∃ call, s.calls 0 = some call ∧ call.progress = .refused err := by
  intro s
  cases hcreate : db.createAdmin username password encoded with
  | ok db' =>
    unfold Database.createAdmin at hcreate
    split at hcreate
    next => cases hcreate
    next hinput =>
      have hvalid : ValidInput username password := hinput
      split at hcreate
      next => cases hcreate
      next => cases hcreate
      next encoded hadmin =>
        cases hcreate
        simp [s, run, step, start, put, checkInput, hvalid, check, setupRequired, hash, insert, hadmin,
          Won, Call.row]
  | error err =>
    unfold Database.createAdmin at hcreate
    split at hcreate
    next hinput =>
      have hinvalid : ¬ ValidInput username password := fun h => h hinput
      cases hcreate
      simp [s, run, step, start, put, checkInput, hinvalid]
    next hinput =>
      have hvalid : ValidInput username password := hinput
      split at hcreate
      next row _ hadmin =>
        cases hcreate
        simp [s, run, step, start, put, checkInput, hvalid, check, setupRequired, hadmin]
      next hadmin =>
        cases hcreate
        simp [s, run, step, start, put, checkInput, hvalid, check, setupRequired, hash, hadmin]
      next => cases hcreate

end Setup

end TinyProbe.Auth
