import TinyProbe.Auth.Gate

/-!
# Who gets past the session

In every run of the gate an endpoint behind `RequireSession` is reached only with the token of a
login that knew the username and the password, that no logout had removed since, and before the
expiry; and 401 is for those without such a token only (`gate_run`).

What is stored is what the log says (`Inv`): the last event of a digest is the login that stored its
row, or the logout that removed it. So the answers of `Authenticate` follow the log, and the rest is
about lists.
-/

namespace TinyProbe.Auth

open Run TinyProbe.Stream

/-- A call that is not refused has valid input, and the administrator is that of such a call. -/
structure Setup.Accepted (s : Setup) : Prop where
  valid : ∀ id call, s.calls id = some call → (∀ err, call.progress ≠ .refused err) → call.Valid
  admin : ∀ row, s.admin = some row → ∃ id call encoded, s.calls id = some call ∧ call.Valid ∧
    row = call.row encoded

section Accepted

variable {s : Setup} {id : Nat} {call call' : Call} {admin' : Option AdminRow}

/-- A step of one call. -/
theorem Setup.Accepted.put (h : s.Accepted)
    (hsame : s.calls id = none ∨ ∃ call, s.calls id = some call ∧
      call'.username = call.username ∧ call'.password = call.password)
    (hvalid : (∀ err, call'.progress ≠ .refused err) → call'.Valid)
    (hadmin : admin' = s.admin ∨ call'.Valid ∧ ∃ encoded, admin' = some (call'.row encoded)) :
    Setup.Accepted { s.put id call' with admin := admin' } where
  valid i other hother hgoes := by
    rw [Setup.calls_put] at hother
    split at hother
    next =>
      cases hother
      exact hvalid hgoes
    next => exact h.valid i other hother hgoes
  admin row hrow := by
    rcases hadmin with heq | ⟨hin, encoded, heq⟩
    · obtain ⟨i, other, encoded, hother, hin, hrow'⟩ := h.admin row (heq.symm.trans hrow)
      by_cases hi : i = id
      · rw [hi] at hother
        rcases hsame with hnone | ⟨call, hcall, husername, hpassword⟩
        · rw [hnone] at hother
          cases hother
        rw [hcall] at hother
        cases hother
        refine ⟨id, call', encoded, (Setup.calls_put id).trans (if_pos rfl), ?_, ?_⟩
        · unfold Call.Valid at hin ⊢
          rwa [husername, hpassword]
        · rw [hrow', Call.row, Call.row, husername]
      · exact ⟨i, other, encoded, (Setup.calls_put i).trans ((if_neg hi).trans hother), hin, hrow'⟩
    · have hsome : some (call'.row encoded) = some row := heq.symm.trans hrow
      cases hsome
      exact ⟨id, call', encoded, (Setup.calls_put id).trans (if_pos rfl), hin, rfl⟩

/-- Every step of the setup keeps valid what the calls go on with. -/
theorem Setup.Accepted.step (h : s.Accepted) (violation : String) (a : Setup.Action) :
    (s.step violation a).Accepted := by
  cases a with
  | call id username password =>
    unfold Setup.step
    dsimp only
    split
    next hnew =>
      refine h.put (Or.inl hnew) (fun hgoes => ?_) (Or.inl rfl)
      by_contra hinvalid
      exact hgoes .invalidInput (if_neg hinvalid)
    next => exact h
  | check id fails =>
    unfold Setup.step
    dsimp only
    split
    next call hcall =>
      split
      next hbegun =>
        have hvalid : call.Valid := h.valid id call hcall fun err heq => by
          rw [hbegun] at heq
          cases heq
        unfold Setup.check
        split <;>
          exact h.put (Or.inr ⟨call, hcall, rfl, rfl⟩) (fun _ => hvalid) (Or.inl rfl)
      next => exact h
    next => exact h
  | hash id encoded =>
    unfold Setup.step
    dsimp only
    split
    next call hcall =>
      split
      next hrequired =>
        have hvalid : call.Valid := h.valid id call hcall fun err heq => by
          rw [hrequired] at heq
          cases heq
        cases encoded <;>
          exact h.put (Or.inr ⟨call, hcall, rfl, rfl⟩) (fun _ => hvalid) (Or.inl rfl)
      next => exact h
    next => exact h
  | insert id fault =>
    unfold Setup.step
    dsimp only
    split
    next call hcall =>
      split
      next encoded hhashed =>
        have hvalid : call.Valid := h.valid id call hcall fun err heq => by
          rw [hhashed] at heq
          cases heq
        unfold Setup.insert
        split
        next text applied =>
          refine h.put (Or.inr ⟨call, hcall, rfl, rfl⟩) (fun _ => hvalid) ?_
          cases hadmin : s.admin with
          | some row => cases applied <;> exact Or.inl rfl
          | none =>
            cases applied with
            | true => exact Or.inr ⟨hvalid, encoded, rfl⟩
            | false => exact Or.inl rfl
        next =>
          split
          next => exact h.put (Or.inr ⟨call, hcall, rfl, rfl⟩) (fun _ => hvalid) (Or.inl rfl)
          next =>
            exact h.put (Or.inr ⟨call, hcall, rfl, rfl⟩) (fun _ => hvalid)
              (Or.inr ⟨hvalid, encoded, rfl⟩)
      next => exact h
    next => exact h

end Accepted

variable {D : Type} [DecidableEq D]

namespace Gate

/-! ## What holds of the log -/

/-- What the progress of a login says. -/
def LoginFits (c : Crypto D) (s : Gate D) (id : Nat) (call : LoginCall) : Prop :=
  match call.progress with
  | .read (some row) => s.db.admin = some row
  | .verified row =>
    s.db.admin = some row ∧ row.username = call.username ∧
      c.verify call.password row.passwordHash = some true
  | .done token expires => ∃ row session,
    .stored id row (c.digest token) session ∈ s.log ∧ session.expires = expires
  | _ => True

/-- What the progress of a request to an endpoint behind `RequireSession` says. -/
structure RequestFits (c : Crypto D) (s : Gate D) (id : Nat) (request : GateRequest) : Prop where
  reached : request.endpoint.requiresSession = true → ∀ admin,
    request.progress.reached? = some admin →
    ∃ token a t, request.cookie = some token ∧ token ≠ "" ∧ admin = some a ∧
      .checked id (c.digest token) t (some a) ∈ s.log
  refused : request.progress = .refused 401 → ∀ token, request.cookie = some token → token ≠ "" →
    ∃ t, .checked id (c.digest token) t none ∈ s.log

/-- A session is the administrator's, and its login had the password. -/
def StoredFits (c : Crypto D) (s : Gate D) (id : Nat) (row : AdminRow) (session : Session) : Prop :=
  s.db.admin = some row ∧ session.adminID = row.id ∧ ∃ call, s.logins id = some call ∧
    row.username = call.username ∧ c.verify call.password row.passwordHash = some true

structure Inv (c : Crypto D) (s : Gate D) : Prop where
  sessions : ∀ digest, s.db.session? digest = (standing s.log digest).map Prod.snd
  trace : Trace.Justified Event.Fair s.log
  stored : ∀ id row digest session, .stored id row digest session ∈ s.log →
    s.StoredFits c id row session
  logins : ∀ id call, s.logins id = some call → s.LoginFits c id call
  requests : ∀ id request, s.requests id = some request → s.RequestFits c id request

/-- What a step does beside the log. -/
structure Next (c : Crypto D) (s s' : Gate D) : Prop where
  admin : ∀ row, s.db.admin = some row → s'.db.admin = some row
  log : s.log ⊆ s'.log
  kept : ∀ id call, s.logins id = some call → ∃ call', s'.logins id = some call' ∧
    call'.username = call.username ∧ call'.password = call.password
  logins : ∀ id call, s'.logins id = some call → s.logins id = some call ∨ s'.LoginFits c id call
  requests : ∀ id request, s'.requests id = some request →
    s.requests id = some request ∨ s'.RequestFits c id request

section Steps

variable {c : Crypto D} {s s' : Gate D} {id : Nat}

/-- At the start there are no sessions and no requests. -/
theorem inv_start (now : Time) : Inv c (start now : Gate D) where
  sessions := fun _ => rfl
  trace := Trace.justified_nil
  stored := fun _ _ _ _ h => absurd h List.not_mem_nil
  logins := fun _ _ h => by cases h
  requests := fun _ _ h => by cases h

/-- What a login has read stays true, as the administrator and the log do. -/
theorem LoginFits.mono {call : LoginCall} (h : s.LoginFits c id call)
    (hadmin : ∀ row, s.db.admin = some row → s'.db.admin = some row) (hlog : s.log ⊆ s'.log) :
    s'.LoginFits c id call := by
  unfold LoginFits at h ⊢
  split
  next row hp =>
    rw [hp] at h
    exact hadmin row h
  next row hp =>
    rw [hp] at h
    exact ⟨hadmin row h.1, h.2⟩
  next token expires hp =>
    rw [hp] at h
    obtain ⟨row, session, hin, hexpires⟩ := h
    exact ⟨row, session, hlog hin, hexpires⟩
  next => trivial

/-- So does what a request has found. -/
theorem RequestFits.mono {request : GateRequest} (h : s.RequestFits c id request)
    (hlog : s.log ⊆ s'.log) : s'.RequestFits c id request where
  reached hsession admin hadmin := by
    obtain ⟨token, a, t, hcookie, hne, heq, hin⟩ := h.reached hsession admin hadmin
    exact ⟨token, a, t, hcookie, hne, heq, hlog hin⟩
  refused hp token hcookie hne := by
    obtain ⟨t, hin⟩ := h.refused hp token hcookie hne
    exact ⟨t, hlog hin⟩

/-- A stored session stays one that a login has given. -/
theorem StoredFits.mono {row : AdminRow} {session : Session} (h : s.StoredFits c id row session)
    (hnext : Next c s s') : s'.StoredFits c id row session := by
  obtain ⟨hadmin, hid, call, hcall, husername, hverify⟩ := h
  obtain ⟨call', hcall', huser, hpassword⟩ := hnext.kept id call hcall
  refine ⟨hnext.admin row hadmin, hid, call', hcall', ?_, ?_⟩
  · rw [huser, husername]
  · rw [hpassword, hverify]

/-- A step that logs nothing. -/
theorem Inv.quiet (h : Inv c s) (hnext : Next c s s') (hsessions : s'.db.sessions = s.db.sessions)
    (hlog : s'.log = s.log) : Inv c s' where
  sessions digest := by
    rw [Database.session?, hsessions, hlog]
    exact h.sessions digest
  trace := by
    rw [hlog]
    exact h.trace
  stored id row digest session hin := by
    rw [hlog] at hin
    exact (h.stored id row digest session hin).mono hnext
  logins id call hcall := by
    rcases hnext.logins id call hcall with hold | hnew
    · exact (h.logins id call hold).mono hnext.admin hnext.log
    · exact hnew
  requests id request hrequest := by
    rcases hnext.requests id request hrequest with hold | hnew
    · exact (h.requests id request hold).mono hnext.log
    · exact hnew

/-- The last event of a digest says what stands of it. -/
theorem standing_snoc (log : List (Event D)) (e : Event D) (digest : D) :
    standing (log ++ [e]) digest =
      if e.digest? = some digest then e.session? else standing log digest := by
  unfold standing
  rw [lastOf_snoc]
  split
  next => rfl
  next => rfl

/-- A step that logs an event. -/
theorem Inv.logged (h : Inv c s) (hnext : Next c s s') {e : Event D} (hlog : s'.log = s.log ++ [e])
    (hsessions : ∀ digest, s'.db.session? digest =
      if e.digest? = some digest then e.session?.map Prod.snd else s.db.session? digest)
    (hfair : e.Fair s.log) (hstored : ∀ id row digest session,
      e = .stored id row digest session → s'.StoredFits c id row session) : Inv c s' where
  sessions digest := by
    rw [hsessions, hlog, standing_snoc]
    split
    next => rfl
    next => exact h.sessions digest
  trace := by
    rw [hlog]
    exact h.trace.snoc hfair
  stored id row digest session hin := by
    rw [hlog] at hin
    rcases List.mem_append.mp hin with hin | hin
    · exact (h.stored id row digest session hin).mono hnext
    · exact hstored id row digest session (List.mem_singleton.mp hin).symm
  logins id call hcall := by
    rcases hnext.logins id call hcall with hold | hnew
    · exact (h.logins id call hold).mono hnext.admin hnext.log
    · exact hnew
  requests id request hrequest := by
    rcases hnext.requests id request hrequest with hold | hnew
    · exact (h.requests id request hold).mono hnext.log
    · exact hnew

/-- A step of one login. -/
theorem Next.login (hadmin : ∀ row, s.db.admin = some row → s'.db.admin = some row)
    (hlog : s.log ⊆ s'.log) {call' : LoginCall}
    (hlogins : s'.logins = Function.update s.logins id (some call'))
    (hkept : ∀ call, s.logins id = some call →
      call'.username = call.username ∧ call'.password = call.password)
    (hfits : s'.LoginFits c id call') (hrequests : s'.requests = s.requests) : Next c s s' where
  admin := hadmin
  log := hlog
  kept i call hcall := by
    rw [hlogins, Function.update_apply]
    split
    next heq => exact ⟨call', rfl, hkept call (heq ▸ hcall)⟩
    next => exact ⟨call, hcall, rfl, rfl⟩
  logins i call hcall := by
    rw [hlogins, Function.update_apply] at hcall
    split at hcall
    next heq =>
      cases hcall
      exact Or.inr (heq ▸ hfits)
    next => exact Or.inl hcall
  requests i request hrequest := by
    rw [hrequests] at hrequest
    exact Or.inl hrequest

/-- A step of one request. -/
theorem Next.request (hadmin : s'.db.admin = s.db.admin) (hlog : s.log ⊆ s'.log)
    (hlogins : s'.logins = s.logins) {request' : GateRequest}
    (hrequests : s'.requests = Function.update s.requests id (some request'))
    (hfits : s'.RequestFits c id request') : Next c s s' where
  admin row hrow := hadmin.trans hrow
  log := hlog
  kept i call hcall := ⟨call, hlogins ▸ hcall, rfl, rfl⟩
  logins i call hcall := Or.inl (hlogins ▸ hcall)
  requests i request hrequest := by
    rw [hrequests, Function.update_apply] at hrequest
    split at hrequest
    next heq =>
      cases hrequest
      exact Or.inr (heq ▸ hfits)
    next => exact Or.inl hrequest

/-- A request that has not come to its handler, and was not refused for its token. -/
theorem RequestFits.unreached {request : GateRequest} (hreached : request.progress.reached? = none)
    (hrefused : request.progress = .refused 401 →
      ∀ token, request.cookie = some token → token = "") :
    s.RequestFits c id request where
  reached _ admin hadmin := by
    rw [hreached] at hadmin
    cases hadmin
  refused hp token hcookie hne := absurd (hrefused hp token hcookie) hne

/-- A login goes on without its `INSERT`. -/
theorem inv_putLogin (h : Inv c s) {call' : LoginCall}
    (hkept : ∀ call, s.logins id = some call →
      call'.username = call.username ∧ call'.password = call.password)
    (hfits : (s.putLogin id call').LoginFits c id call') : Inv c (s.putLogin id call') :=
  h.quiet (.login (fun _ hrow => hrow) (List.Subset.refl _) rfl hkept hfits rfl) rfl rfl

/-- A request goes on without a statement. -/
theorem inv_putRequest (h : Inv c s) {request' : GateRequest}
    (hfits : (s.putRequest id request').RequestFits c id request') :
    Inv c (s.putRequest id request') :=
  h.quiet (.request rfl (List.Subset.refl _) rfl rfl hfits) rfl rfl

end Steps

/-! ## The steps -/

section Steps

variable {c : Crypto D} {s s' : Gate D} {id : Nat}

/-- The setup has nothing to do with sessions. -/
theorem inv_setup (h : Inv c s) (a : Setup.Action) : Inv c (s.setup c a) :=
  h.quiet ⟨fun _ hrow => Setup.admin_step hrow c.violation a, List.Subset.refl _,
    fun _ call hcall => ⟨call, hcall, rfl, rfl⟩, fun _ _ hcall => Or.inl hcall,
    fun _ _ hrequest => Or.inl hrequest⟩ rfl rfl

/-- Whether a password is right is decided about the administrator that was read. -/
theorem inv_verify (h : Inv c s) {call : LoginCall} (hcall : s.logins id = some call)
    {row : Option AdminRow} (hp : call.progress = .read row) :
    Inv c (s.putLogin id (verify c call row)) := by
  have hold := h.logins id call hcall
  unfold LoginFits at hold
  rw [hp] at hold
  have hsame : ∀ other, s.logins id = some other →
      call.username = other.username ∧ call.password = other.password := by
    intro other hother
    rw [hcall] at hother
    cases hother
    exact ⟨rfl, rfl⟩
  cases row with
  | none => exact inv_putLogin h hsame trivial
  | some row =>
    refine inv_putLogin h hsame ?_
    unfold LoginFits verify
    dsimp only
    by_cases hok : c.verify call.password row.passwordHash = some true ∧
      row.username = call.username
    · rw [if_pos hok]
      exact ⟨hold, hok.2, hok.1⟩
    · rw [if_neg hok]
      trivial

/-- **A session is stored** for a login that has verified the password. -/
theorem inv_stored (h : Inv c s) {call : LoginCall} (hcall : s.logins id = some call)
    {row : AdminRow} (hp : call.progress = .verified row) {digest : D} {session : Session}
    {db : Database D} (hinsert : s.db.insertSession row.id digest s.now = some (session, db))
    {progress : LoginProgress} (hfits : LoginFits c
      { s.putLogin id { call with progress } with
        db, log := s.log ++ [.stored id row digest session] } id { call with progress }) :
    Inv c { s.putLogin id { call with progress } with
      db, log := s.log ++ [.stored id row digest session] } := by
  obtain ⟨hadmin, hid, hexpires, hsessions⟩ := Database.insertSession_some hinsert
  have hold := h.logins id call hcall
  unfold LoginFits at hold
  rw [hp] at hold
  obtain ⟨hrow, husername, hverify⟩ := hold
  refine h.logged (.login (fun _ hrow => hadmin.trans hrow) (List.subset_append_left _ _) rfl ?_
    hfits rfl) rfl (fun digest' => ?_) trivial ?_
  · intro other hother
    rw [hcall] at hother
    cases hother
    exact ⟨rfl, rfl⟩
  · refine (hsessions digest').trans ?_
    simp only [Event.digest?, Event.session?, Option.some.injEq, Option.map_some, eq_comm]
  · intro id' row' digest' session' heq
    cases heq
    exact ⟨hadmin.trans hrow, hid, _, Function.update_self _ _ _, husername, hverify⟩

/-- A session is inserted for the login that was verified. -/
theorem inv_insert (h : Inv c s) {call : LoginCall} (hcall : s.logins id = some call)
    {row : AdminRow} (hp : call.progress = .verified row) (fault : Option Bool)
    (token : Option String) : Inv c (s.insert c id call row fault token) := by
  have hsame : ∀ other, s.logins id = some other →
      call.username = other.username ∧ call.password = other.password := by
    intro other hother
    rw [hcall] at hother
    cases hother
    exact ⟨rfl, rfl⟩
  unfold insert
  split
  next => exact inv_putLogin h hsame trivial
  next token =>
    split
    next session db hinsert =>
      refine inv_stored h hcall hp hinsert ⟨row, session, ?_, rfl⟩
      exact List.mem_append_right _ List.mem_cons_self
    next session db hinsert => exact inv_stored h hcall hp hinsert trivial
    next => exact inv_putLogin h hsame trivial

/-- `Authenticate` follows the log. -/
theorem authenticate_eq (h : Inv c s) (digest : D) :
    (standing s.log digest).bind (admitted s.now) = (s.db.authenticate digest s.now).toOption := by
  have hsession := h.sessions digest
  unfold Database.authenticate
  cases hstanding : standing s.log digest with
  | none =>
    rw [hstanding] at hsession
    rw [hsession]
    rfl
  | some grant =>
    obtain ⟨row, session⟩ := grant
    rw [hstanding] at hsession
    rw [hsession]
    obtain ⟨e, hlast, he⟩ := Option.bind_eq_some_iff.mp hstanding
    obtain ⟨hin, hdigest⟩ := lastOf_mem hlast
    cases e with
    | stored login row' digest' session' =>
      cases he
      obtain ⟨hadmin, hid, -⟩ := h.stored login row digest' session hin
      simp only [Option.map_some, Option.bind_some, admitted]
      split
      next =>
        rw [hadmin]
        dsimp only
        rw [if_pos hid.symm]
        rfl
      next => rfl
    | removed request digest' => cases he
    | checked request digest' t admin => cases he

/-- The middleware looks the digest of the cookie up, and finds what stands of it. -/
theorem inv_requireSession (h : Inv c s) {request : GateRequest} (fails : Bool) {token : String}
    (hcookie : request.cookie = some token) :
    Inv c (s.requireSession c id request fails token) := by
  have hanswer := authenticate_eq h (c.digest token)
  unfold requireSession
  split
  next hempty =>
    refine inv_putRequest h (.unreached rfl fun _ token' htoken => ?_)
    have hsame := hcookie.symm.trans htoken
    cases hsame
    exact hempty
  next hnonempty =>
    split
    next =>
      exact inv_putRequest h (.unreached rfl fun hp => by cases hp)
    next =>
      split
      next admin hok =>
        rw [hok] at hanswer
        have hin : .checked id (c.digest token) s.now (some admin) ∈
            s.log ++ [.checked id (c.digest token) s.now (some admin)] :=
          List.mem_append_right _ List.mem_cons_self
        refine h.logged (.request rfl (List.subset_append_left _ _) rfl rfl
          ⟨?_, fun hp => by cases hp⟩) rfl (fun _ => rfl) hanswer.symm (fun _ _ _ _ heq => by cases heq)
        intro _ admin' hreached
        cases hreached
        exact ⟨token, admin, s.now, hcookie, hnonempty, rfl, hin⟩
      next err herr =>
        rw [herr] at hanswer
        have hin : .checked id (c.digest token) s.now none ∈
            s.log ++ [.checked id (c.digest token) s.now none] :=
          List.mem_append_right _ List.mem_cons_self
        refine h.logged (.request rfl (List.subset_append_left _ _) rfl rfl
          ⟨fun _ _ hreached => (by cases hreached), ?_⟩) rfl (fun _ => rfl) hanswer.symm
          (fun _ _ _ _ heq => by cases heq)
        intro _ token' htoken _
        have hsame := hcookie.symm.trans htoken
        cases hsame
        exact ⟨s.now, hin⟩

/-- A request without a cookie is refused; another one is looked up. -/
theorem inv_enter (h : Inv c s) (request : GateRequest) (fails : Bool) :
    Inv c (s.enter c id request fails) := by
  unfold enter
  split
  next =>
    split
    next hcookie =>
      refine inv_putRequest h (.unreached rfl fun _ token htoken => ?_)
      have hsame := hcookie.symm.trans htoken
      cases hsame
    next token hcookie => exact inv_requireSession h fails hcookie
  next hopen =>
    refine inv_putRequest h ⟨fun hsession => absurd hsession hopen, fun hp => by cases hp⟩

/-- A logout takes the session of its cookie from what stands, or changes nothing. -/
theorem inv_logout (h : Inv c s) {request : GateRequest} (hrequest : s.requests id = some request)
    {admin : Option Admin} (hp : request.progress = .handled admin) (fault : Option Bool) :
    Inv c (s.logout c id request admin fault) := by
  have hold := h.requests id request hrequest
  have hreached : ∀ status : Nat, ∀ t : Gate D, s.log ⊆ t.log →
      t.RequestFits c id { request with progress := .answered admin status } := by
    intro status t hlog
    refine ⟨fun hsession admin' hadmin => ?_, fun hrefused => by cases hrefused⟩
    cases hadmin
    exact (hold.mono hlog).reached hsession admin (by rw [hp]; rfl)
  unfold logout
  dsimp only
  split
  next => exact inv_putRequest h (hreached _ _ (List.Subset.refl _))
  next =>
    refine h.logged (.request rfl (List.subset_append_left _ _) rfl rfl
      (hreached _ _ (List.subset_append_left _ _))) rfl (fun digest => ?_) trivial
      (fun _ _ _ _ heq => by cases heq)
    refine (Map.lookup_erase _ digest _).trans ?_
    simp only [Event.digest?, Event.session?, Option.some.injEq, Option.map_none, eq_comm]
    rfl

/-- Every step of the gate keeps the invariant. -/
theorem inv_step (h : Inv c s) (a : Action) : Inv c (s.step c a) := by
  cases a with
  | wait ns =>
    exact h.quiet ⟨fun _ hrow => hrow, List.Subset.refl _,
      fun _ call hcall => ⟨call, hcall, rfl, rfl⟩, fun _ _ hcall => Or.inl hcall, fun _ _ hrequest => Or.inl hrequest⟩ rfl rfl
  | setup a => exact inv_setup h a
  | login id username password =>
    unfold step
    dsimp only
    split
    next hnew =>
      refine inv_putLogin h (fun call hcall => ?_) trivial
      rw [hnew] at hcall
      cases hcall
    next => exact h
  | read id fails =>
    unfold step
    dsimp only
    split
    next call hcall =>
      split
      next =>
        refine inv_putLogin h (fun other hother => ?_) ?_
        · rw [hcall] at hother
          cases hother
          exact ⟨rfl, rfl⟩
        · unfold LoginFits read
          cases fails with
          | true => trivial
          | false =>
            dsimp only
            cases hadmin : s.db.admin with
            | none => trivial
            | some row => exact hadmin
      next => exact h
    next => exact h
  | verify id =>
    unfold step
    dsimp only
    split
    next call hcall =>
      split
      next row hp => exact inv_verify h hcall hp
      next => exact h
    next => exact h
  | insert id token fault =>
    unfold step
    dsimp only
    split
    next call hcall =>
      split
      next row hp => exact inv_insert h hcall hp fault token
      next => exact h
    next => exact h
  | request id endpoint cookie =>
    unfold step
    dsimp only
    split
    next =>
      exact inv_putRequest h (.unreached rfl fun hp => by cases hp)
    next => exact h
  | enter id fails =>
    unfold step
    dsimp only
    split
    next request hrequest =>
      split
      next => exact inv_enter h request fails
      next => exact h
    next => exact h
  | logout id fault =>
    unfold step
    dsimp only
    split
    next request hrequest =>
      split
      next admin _ hp => exact inv_logout h hrequest hp fault
      next => exact h
    next => exact h

end Steps

/-! ## Where the administrator comes from -/

section Accepted

variable {c : Crypto D} {s : Gate D}

/-- The `INSERT` of a session leaves the administrator. -/
private theorem setupState_insert (id : Nat) (call : LoginCall) (row : AdminRow)
    (fault : Option Bool) (token : Option String) :
    (s.insert c id call row fault token).setupState = s.setupState := by
  cases token with
  | none => rfl
  | some token =>
    unfold insert setupState
    dsimp only
    split
    next hinsert =>
      rw [(Database.insertSession_some hinsert).1]
      rfl
    next hinsert =>
      rw [(Database.insertSession_some hinsert).1]
      rfl
    next => rfl

private theorem setupState_enter (id : Nat) (request : GateRequest) (fails : Bool) :
    (s.enter c id request fails).setupState = s.setupState := by
  unfold enter
  split
  next =>
    split
    next => rfl
    next =>
      unfold requireSession
      split
      next => rfl
      next =>
        split
        next => rfl
        next => split <;> rfl
  next => rfl

/-- Only the steps of `CreateAdmin` touch the administrator. -/
theorem setupState_step {a : Action} (ha : ∀ b, a ≠ .setup b) :
    (s.step c a).setupState = s.setupState := by
  cases a with
  | setup b => exact absurd rfl (ha b)
  | wait ns => rfl
  | login id username password =>
    simp only [step]
    split <;> rfl
  | read id fails | verify id =>
    simp only [step]
    split
    next => split <;> rfl
    next => rfl
  | insert id token fault =>
    simp only [step]
    split
    next =>
      split
      next => exact setupState_insert id _ _ fault token
      next => rfl
    next => rfl
  | request id endpoint cookie =>
    simp only [step]
    split <;> rfl
  | enter id fails =>
    simp only [step]
    split
    next =>
      split
      next => exact setupState_enter id _ fails
      next => rfl
    next => rfl
  | logout id fault =>
    simp only [step]
    split
    next =>
      split
      next =>
        simp only [logout]
        split <;> rfl
      next => rfl
    next => rfl

theorem accepted_step (h : s.setupState.Accepted) (a : Action) :
    (s.step c a).setupState.Accepted := by
  cases a with
  | setup a => exact h.step c.violation a
  | _ =>
    rw [setupState_step (by simp)]
    exact h

private theorem accepted_start (now : Time) : (start now : Gate D).setupState.Accepted where
  valid := fun _ _ h => by cases h
  admin := fun _ h => by cases h

end Accepted

/-! ## The gate -/

/-- A request was let through with a session that a login with the password has stored, that nobody
had removed since, and whose expiry the clock had not reached. -/
def Admitted (c : Crypto D) (s : Gate D) (id : Nat) (digest : D) (admin : Option Admin) : Prop :=
  ∃ before since rest login call row session t,
    s.log = before ++ .stored login row digest session ::
      (since ++ .checked id digest t (some row.toAdmin) :: rest) ∧
    (∀ e ∈ since, e.digest? ≠ some digest) ∧
    admin = some row.toAdmin ∧ s.db.admin = some row ∧
    s.logins login = some call ∧ row.username = call.username ∧
    c.verify call.password row.passwordHash = some true ∧
    t.format < session.expiresAt ∧
    (t.FourDigitYear → session.expires.FourDigitYear → t.unix ≤ session.expires.unix)

/-- A request was refused when no such session was stored. -/
def Rejected (s : Gate D) (id : Nat) (digest : D) : Prop :=
  ∃ pre t rest, s.log = pre ++ .checked id digest t none :: rest ∧
    ∀ before login row session since, pre = before ++ .stored login row digest session :: since →
      (∀ e ∈ since, e.digest? ≠ some digest) → ¬ t.format < session.expiresAt

/-- What is to be had of the gate, at any moment. -/
structure Sound (c : Crypto D) (s : Gate D) : Prop where
  reached : ∀ id request admin, s.requests id = some request →
    request.endpoint.requiresSession = true → request.progress.reached? = some admin →
      ∃ token, request.cookie = some token ∧ token ≠ "" ∧ s.Admitted c id (c.digest token) admin
  refused : ∀ id request, s.requests id = some request → request.progress = .refused 401 →
    ∀ token, request.cookie = some token → token ≠ "" → s.Rejected id (c.digest token)
  /-- A token that was handed out is that of a session. -/
  signedIn : ∀ id call token expires, s.logins id = some call →
    call.progress = .done token expires →
    ∃ row session, .stored id row (c.digest token) session ∈ s.log ∧ session.expires = expires
  admin : ∀ row, s.db.admin = some row → ∃ id call encoded, s.calls id = some call ∧ call.Valid ∧
    row = call.row encoded

section Sound

variable {c : Crypto D} {s : Gate D} {id : Nat}

/-- An instant with the earlier text is not a second later. -/
theorem unix_le_of_format_lt {t u : Time} (ht : t.FourDigitYear) (hu : u.FourDigitYear)
    (h : t.format < u.format) : t.unix ≤ u.unix := by
  by_contra hlt
  have hlater : u.ns < t.ns := Time.ns_lt_iff.mpr (Or.inl (Int.not_le.mp hlt))
  have hapart : ¬ u.Overlaps t := fun hboth => hlt (Int.le_of_eq hboth.2.1.symm)
  have hback : u.format < t.format := ((Time.format_lt_iff hu ht).mpr hapart).mpr hlater
  exact List.lt_asymm h hback

/-- Who is admitted has the session of a login, which has not expired. -/
theorem Inv.admitted (h : Inv c s) {digest : D} {t : Time} {admin : Admin}
    (hin : .checked id digest t (some admin) ∈ s.log) : s.Admitted c id digest (some admin) := by
  obtain ⟨pre, rest, hlog⟩ := List.append_of_mem hin
  have hfair : some admin = (standing pre digest).bind (Auth.admitted t) := h.trace pre _ rest hlog
  obtain ⟨grant, hstanding, hadmitted⟩ := Option.bind_eq_some_iff.mp hfair.symm
  obtain ⟨e, hlast, he⟩ := Option.bind_eq_some_iff.mp hstanding
  obtain ⟨before, since, hpre, hdigest, hsince⟩ := lastOf_split hlast
  cases e with
  | stored login row digest' session =>
    cases he
    cases hdigest
    unfold Auth.admitted at hadmitted
    split at hadmitted
    next hlt =>
      cases hadmitted
      have hstored : .stored login row digest session ∈ s.log := by
        rw [hlog, hpre]
        exact List.mem_append_left _ (List.mem_append_right _ List.mem_cons_self)
      obtain ⟨hadmin, _, call, hcall, husername, hverify⟩ :=
        h.stored login row digest session hstored
      refine ⟨before, since, rest, login, call, row, session, t, ?_, hsince, rfl, hadmin, hcall,
        husername, hverify, hlt, fun ht hexpires => ?_⟩
      · rw [hlog, hpre, List.append_assoc, List.cons_append]
      · rw [session.expiresAt_eq] at hlt
        exact unix_le_of_format_lt ht hexpires hlt
    next => cases hadmitted
  | removed request digest' => cases he
  | checked request digest' t' admin' => cases he

/-- A cookie that is rejected is of no session that stands. -/
theorem Inv.rejected (h : Inv c s) {digest : D} {t : Time}
    (hin : .checked id digest t none ∈ s.log) : s.Rejected id digest := by
  obtain ⟨pre, rest, hlog⟩ := List.append_of_mem hin
  have hfair : none = (standing pre digest).bind (Auth.admitted t) := h.trace pre _ rest hlog
  refine ⟨pre, t, rest, hlog, fun before login row session since hpre hsince hlt => ?_⟩
  -- the session would be the one that is stored
  have hlast : lastOf Event.digest? (some digest) pre =
      some (.stored login row digest session) := by
    rw [hpre, List.append_cons, lastOf_append_of_ne hsince, lastOf_snoc]
    exact if_pos rfl
  have hstanding : standing pre digest = some (row, session) := by
    rw [standing, hlast]
    rfl
  rw [hstanding, Option.bind_some, Auth.admitted, if_pos hlt] at hfair
  cases hfair

/-- **The gate at every moment**, however the requests, the logins, the logouts and the setups come
and whichever statements fail. Who reaches a guarded endpoint has the session of a login with the
password, which nobody had removed and whose expiry the clock had not reached; who is refused had no
such session. -/
theorem gate_run (c : Crypto D) (now : Time) (as : List Action) :
    Sound c (run (step c) (start now : Gate D) as) := by
  have hinv : Inv c (run (step c) (start now : Gate D) as) :=
    @run_invariant _ _ (step c) (Inv c) (fun _ a h => inv_step h a) _ (inv_start now) as
  have haccepted : (run (step c) (start now : Gate D) as).setupState.Accepted :=
    @run_invariant _ _ (step c) (fun s : Gate D => s.setupState.Accepted)
      (fun _ a h => accepted_step h a) _ (accepted_start now) as
  generalize run (step c) (start now : Gate D) as = s at hinv haccepted
  refine ⟨fun id request admin hrequest hsession hreached => ?_,
    fun id request hrequest hp token hcookie hne => ?_, fun id call token expires hcall hp => ?_,
    haccepted.admin⟩
  · obtain ⟨token, a, t, hcookie, hne, rfl, hin⟩ :=
      (hinv.requests id request hrequest).reached hsession admin hreached
    exact ⟨token, hcookie, hne, hinv.admitted hin⟩
  · obtain ⟨t, hin⟩ := (hinv.requests id request hrequest).refused hp token hcookie hne
    exact hinv.rejected hin
  · have hfits := hinv.logins id call hcall
    unfold LoginFits at hfits
    rw [hp] at hfits
    exact hfits

end Sound

/-- Passwords are stored as they are, and so are tokens. -/
def plain : Crypto String := ⟨fun password encoded => some (password == encoded), id, "UNIQUE"⟩

/-- The administrator signs in and out, and comes back with the same cookie. -/
def signedOut : List Action :=
  [.setup (.call 0 "xiaodi" "a long password"), .setup (.check 0 false),
    .setup (.hash 0 (some "a long password")), .setup (.insert 0 none),
    .login 0 "xiaodi" "a long password", .read 0 false, .verify 0, .insert 0 (some "token") none,
    .request 0 .logout (some "token"), .enter 0 false, .logout 0 none,
    .request 1 .me (some "token"), .enter 1 false]

example : ((run (step plain) (start (.ofUnix 0)) signedOut).requests 0).map (·.progress) =
    some (.answered (some ⟨1, "xiaodi"⟩) 204) ∧
    ((run (step plain) (start (.ofUnix 0)) signedOut).requests 1).map (·.progress) =
      some (.refused 401) := by decide +kernel

end Gate

end TinyProbe.Auth
