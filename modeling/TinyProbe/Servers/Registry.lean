import TinyProbe.Base.Text
import TinyProbe.Lib.Table
import TinyProbe.Live.Snapshot

/-!
# The server registry

The table `servers` and the statements `internal/servers/service.go` makes on it: registration,
renaming and disabling, deletion, token rotation, authentication, and the version an agent reports.
What the table's keys promise is part of `Registry`, so a table with two rows of one id, an id above
the `AUTOINCREMENT` counter or two rows of one token digest cannot be built.

The table stores the SHA-256 digest of a token that `agentTokenPair` has drawn at random. A digest
stands here for the token it is made of, and tokens are counted in the order in which they are
drawn, so none is drawn twice; a token that was not drawn yet is nobody's.

Statements may fail for a reason outside the program. `Outcome` says whether one does, and whether
a failing one has changed the table all the same.
-/

namespace TinyProbe.Servers

/-- A raw agent token, as the number of the draw of `agentTokenPair` it comes from. -/
abbrev Token := Nat

/-- A row of `servers`. -/
structure Row extends Server where
  token : Token
  agentVersion : String
deriving DecidableEq

/-- How a statement ends. -/
inductive Outcome where
  | ok
  | failed (applied : Bool)
deriving DecidableEq

/-- The statement has changed the table. -/
def Outcome.applied : Outcome → Bool
  | .ok => true
  | .failed applied => applied

/-- The errors of `service.go`. -/
inductive ServiceError where
  | invalidInput
  | notFound
  | invalidToken
  | disabled
  | serverLimit
  | failed
deriving DecidableEq, Repr

/-- The table, and what its keys promise. -/
structure Registry where
  rows : List Row
  nextID : Int
  nextToken : Token
  ids : (rows.map (·.id)).Pairwise (· < ·)
  bound : ∀ row ∈ rows, row.id < nextID
  tokens : (rows.map Row.token).Nodup
  drawn : ∀ row ∈ rows, row.token < nextToken

namespace Registry

theorem ids_nil : (([] : List Row).map (·.id)).Pairwise (· < ·) := List.Pairwise.nil

def empty : Registry :=
  { rows := [], nextID := 1, nextToken := 0, ids := ids_nil
    bound := fun _ h => absurd h List.not_mem_nil
    tokens := List.nodup_nil
    drawn := fun _ h => absurd h List.not_mem_nil }

/-- The row of an id. -/
def row? (r : Registry) (id : Int) : Option Row := r.rows.find? (·.id == id)

/-- The row of a token. -/
def owner? (r : Registry) (token : Token) : Option Row := r.rows.find? (·.token == token)

/-- `agentTokenPair`: the next draw is used up, whatever becomes of it. -/
def draw (r : Registry) : Registry :=
  { r with
    nextToken := r.nextToken + 1
    drawn := fun row hrow => Nat.lt_succ_of_lt (r.drawn row hrow) }

/-- `INSERT INTO servers`, with the token drawn last. -/
def insert (r : Registry) (name : String) : Registry :=
  { r.draw with
    rows := r.rows ++ [{ id := r.nextID, name, enabled := true, token := r.nextToken
                         agentVersion := "" }]
    nextID := r.nextID + 1
    ids := by
      rw [List.map_append, List.pairwise_append]
      refine ⟨r.ids, List.pairwise_singleton _ _, ?_⟩
      intro id hid next hnext
      obtain ⟨row, hrow, rfl⟩ := List.mem_map.mp hid
      rw [List.map_singleton, List.mem_singleton] at hnext
      exact hnext ▸ r.bound row hrow
    bound := by
      intro row hrow
      rcases List.mem_append.mp hrow with hrow | hrow
      · exact Int.lt_trans (r.bound row hrow) (Int.lt_succ _)
      · rw [List.mem_singleton.mp hrow]
        exact Int.lt_succ _
    tokens := by
      rw [List.map_append, List.nodup_append]
      refine ⟨r.tokens, List.nodup_singleton _, ?_⟩
      intro token htoken next hnext
      obtain ⟨row, hrow, rfl⟩ := List.mem_map.mp htoken
      rw [List.map_singleton, List.mem_singleton] at hnext
      exact hnext ▸ Nat.ne_of_lt (r.drawn row hrow)
    drawn := by
      intro row hrow
      rcases List.mem_append.mp hrow with hrow | hrow
      · exact r.draw.drawn row hrow
      · rw [List.mem_singleton.mp hrow]
        exact Nat.lt_succ_self _ }

/-- `UPDATE servers SET ... WHERE id=?`, of columns other than the keys. -/
def update (r : Registry) (id : Int) (f : Row → Row) : Registry :=
  { r with
    rows := r.rows.map fun row =>
      if row.id = id then { f row with id := row.id, token := row.token } else row
    ids := by
      rw [List.map_map]
      refine (congrArg _ (List.map_congr_left fun row _ => ?_)).mpr r.ids
      show (if row.id = id then _ else row).id = row.id
      split <;> rfl
    bound := by
      intro row hrow
      obtain ⟨old, hold, rfl⟩ := List.mem_map.mp hrow
      have := r.bound old hold
      split <;> exact this
    tokens := by
      rw [List.map_map]
      refine (congrArg _ (List.map_congr_left fun row _ => ?_)).mpr r.tokens
      show (if row.id = id then _ else row).token = row.token
      split <;> rfl
    drawn := by
      intro row hrow
      obtain ⟨old, hold, rfl⟩ := List.mem_map.mp hrow
      have := r.drawn old hold
      split <;> exact this }

/-- `DELETE FROM servers WHERE id=?`. -/
def delete (r : Registry) (id : Int) : Registry :=
  { r with
    rows := r.rows.filter fun row => row.id != id
    ids := r.ids.sublist (List.filter_sublist.map _)
    bound := fun row hrow => r.bound row (List.mem_filter.mp hrow).1
    tokens := r.tokens.sublist (List.filter_sublist.map _)
    drawn := fun row hrow => r.drawn row (List.mem_filter.mp hrow).1 }

/-- `UPDATE servers SET token_hash=? WHERE id=?`, with the token drawn last. -/
def setToken (r : Registry) (id : Int) : Registry :=
  { r.draw with
    rows := r.rows.map fun row => if row.id = id then { row with token := r.nextToken } else row
    ids := by
      rw [List.map_map]
      refine (congrArg _ (List.map_congr_left fun row _ => ?_)).mpr r.ids
      show (if row.id = id then _ else row).id = row.id
      split <;> rfl
    bound := by
      intro row hrow
      obtain ⟨old, hold, rfl⟩ := List.mem_map.mp hrow
      have := r.bound old hold
      split <;> exact this
    tokens := by
      -- two rows that differ in their ids cannot both take the drawn token
      have hids := List.pairwise_map.mp r.ids
      have htokens := List.pairwise_map.mp r.tokens
      refine List.pairwise_map.mpr (List.pairwise_map.mpr ?_)
      apply (hids.and htokens).imp_of_mem
      intro a b ha hb hab
      have hla := r.drawn a ha
      have hlb := r.drawn b hb
      split <;> split
      next h h' => exact absurd (h.trans h'.symm) (Int.ne_of_lt hab.1)
      next => exact Nat.ne_of_gt hlb
      next => exact Nat.ne_of_lt hla
      next => exact hab.2
    drawn := by
      intro row hrow
      obtain ⟨old, hold, rfl⟩ := List.mem_map.mp hrow
      split
      next => exact Nat.lt_succ_self _
      next => exact Nat.lt_succ_of_lt (r.drawn old hold) }

/-- The servers of the rows. -/
def servers (r : Registry) : List Server := r.rows.map Row.toServer

/-! ## The rows the statements leave -/

section Laws

variable {r : Registry} {id : Int} {row : Row}

/-- A row is found under its own id. -/
theorem row?_id (h : r.row? id = some row) : row.id = id :=
  Table.key_of_find? (fun row : Row => row.id) h

/-- The row of an id is the one in the table, since ids are unique. -/
theorem row?_iff : r.row? id = some row ↔ row ∈ r.rows ∧ row.id = id :=
  Table.find?_eq_some_iff (fun row : Row => row.id) (r.ids.imp Int.ne_of_lt)

/-- The owner of a token is the one row that has it. -/
theorem owner?_iff {token : Token} : r.owner? token = some row ↔ row ∈ r.rows ∧ row.token = token :=
  Table.find?_eq_some_iff Row.token r.tokens

/-- An id that is in use has been given out. -/
theorem lt_nextID (h : r.row? id = some row) : id < r.nextID := by
  obtain ⟨hmem, rfl⟩ := row?_iff.mp h
  exact r.bound row hmem

@[simp] theorem row?_draw : r.draw.row? id = r.row? id := rfl

/-- No two servers of the list share an id. -/
theorem nodup_servers (r : Registry) : (r.servers.map Server.id).Nodup := by
  rw [servers, List.map_map]
  exact r.ids.imp Int.ne_of_lt

/-- Every server of the list has a row. -/
theorem row?_of_mem_servers {server : Server} (h : server ∈ r.servers) :
    ∃ row, r.row? server.id = some row ∧ row.toServer = server := by
  obtain ⟨row, hrow, rfl⟩ := List.mem_map.mp h
  exact ⟨row, row?_iff.mpr ⟨hrow, rfl⟩, rfl⟩

private theorem servers_update {f : Row → Row}
    (hf : ∀ row : Row, { f row with id := row.id, token := row.token }.toServer = row.toServer) :
    (r.update id f).servers = r.servers := by
  refine (List.map_map ..).trans (List.map_congr_left fun row _ => ?_)
  show (if row.id = id then _ else row).toServer = row.toServer
  split
  next => exact hf row
  next => rfl

/-- A new token shows in no answer. -/
theorem servers_setToken : (r.setToken id).servers = r.servers := by
  refine (List.map_map ..).trans (List.map_congr_left fun row _ => ?_)
  show (if row.id = id then _ else row).toServer = row.toServer
  split
  next => rfl
  next => rfl

/-- `INSERT` gives the next id, and leaves the other rows. -/
theorem row?_insert (name : String) :
    (r.insert name).row? id =
      if r.nextID = id then
        some { id := r.nextID, name, enabled := true, token := r.nextToken, agentVersion := "" }
      else r.row? id :=
  Table.find?_append (fun row : Row => row.id) _ fun row hrow => Int.ne_of_lt (r.bound row hrow)

/-- `UPDATE ... WHERE id=?` changes one row, under its id. -/
theorem row?_update (id' : Int) (f : Row → Row) :
    (r.update id' f).row? id = (r.row? id).map fun row =>
      if row.id = id' then { f row with id := row.id, token := row.token } else row := by
  refine Table.find?_map (fun row : Row => row.id) fun row => ?_
  split <;> rfl

/-- A rotation changes the token of one row. -/
theorem row?_setToken (id' : Int) :
    (r.setToken id').row? id = (r.row? id).map fun row =>
      if row.id = id' then { row with token := r.nextToken } else row := by
  refine Table.find?_map (fun row : Row => row.id) fun row => ?_
  split <;> rfl

/-- `DELETE` takes one row away. -/
theorem row?_delete (id' : Int) :
    (r.delete id').row? id = if id = id' then none else r.row? id :=
  Table.find?_delete (fun row : Row => row.id) id'

end Laws

end Registry

/-! ## The operations of the service -/

/-- `maxServers`. -/
def maxServers : Nat := 10

namespace Service

/-- `Service.Create`. -/
def create (r : Registry) (name : String) (outcome : Outcome) :
    Except ServiceError (Server × Token) × Registry :=
  let name := trimSpace name
  if name = "" then (.error .invalidInput, r)
  else if maxServers ≤ r.rows.length then (.error .serverLimit, r.draw)
  else
    match outcome with
    | .ok => (.ok (⟨r.nextID, name, true⟩, r.nextToken), r.insert name)
    | .failed applied => (.error .failed, if applied then r.insert name else r.draw)

/-- The checks `Service.Update` makes before its mutation: the trimmed name. -/
def checkUpdate (name : Option String) (enabled : Option Bool) :
    Except ServiceError (Option String) :=
  if name = none ∧ enabled = none then .error .invalidInput
  else if (name.map trimSpace) = some "" then .error .invalidInput
  else .ok (name.map trimSpace)

/-- The columns `Service.Update` sets. -/
def setColumns (name : Option String) (enabled : Option Bool) (row : Row) : Row :=
  { row with name := name.getD row.name, enabled := enabled.getD row.enabled }

/-- The mutation of `Service.Update`. -/
def update (r : Registry) (id : Int) (name : Option String) (enabled : Option Bool)
    (outcome : Outcome) : Except ServiceError Server × Registry :=
  let r' := r.update id (setColumns name enabled)
  match outcome with
  | .failed applied => (.error .failed, if applied then r' else r)
  | .ok =>
    match r'.row? id with
    | none => (.error .notFound, r)
    | some row => (.ok row.toServer, r')

/-- The mutation of `Service.Delete`. -/
def delete (r : Registry) (id : Int) (outcome : Outcome) : Except ServiceError Unit × Registry :=
  match outcome with
  | .failed applied => (.error .failed, if applied then r.delete id else r)
  | .ok =>
    match r.row? id with
    | none => (.error .notFound, r)
    | some _ => (.ok (), r.delete id)

/-- `Service.RotateTokenWithServer`. -/
def rotateTokenWithServer (r : Registry) (id : Int) (outcome : Outcome) :
    Except ServiceError (Server × Token) × Registry :=
  match outcome with
  | .failed applied => (.error .failed, if applied then r.setToken id else r.draw)
  | .ok =>
    match r.row? id with
    | none => (.error .notFound, r.draw)
    | some row => (.ok (row.toServer, r.nextToken), r.setToken id)

/-- `Service.List`: the rows come in the order of their ids. -/
def list (r : Registry) : List Server := r.servers

/-- `Service.AuthenticateToken`. -/
def authenticateToken (r : Registry) (token : Token) (fails : Bool) : Except ServiceError Server :=
  if fails then .error .failed
  else
    match r.owner? token with
    | none => .error .invalidToken
    | some row => if row.enabled then .ok row.toServer else .error .disabled

/-- `Service.UpdateAgentVersion`. -/
def updateAgentVersion (r : Registry) (id : Int) (version : String) (outcome : Outcome) :
    Except ServiceError Unit × Registry :=
  let r' := r.update id fun row => { row with agentVersion := version }
  match outcome with
  | .failed applied => (.error .failed, if applied then r' else r)
  | .ok =>
    match r.row? id with
    | none => (.error .notFound, r)
    | some _ => (.ok (), r')

/-- Authentication returns the server of an enabled row with the token. -/
theorem authenticateToken_ok {r : Registry} {token : Token} {fails : Bool} {server : Server}
    (h : authenticateToken r token fails = .ok server) :
    ∃ row, r.owner? token = some row ∧ row.enabled = true ∧ row.toServer = server := by
  unfold authenticateToken at h
  split at h
  next => cases h
  next =>
    split at h
    next => cases h
    next row howner =>
      split at h
      next henabled =>
        cases h
        exact ⟨row, howner, henabled, rfl⟩
      next => cases h

end Service

/-! ## What the operations keep -/

namespace Registry

/-- The id has been given out, and the server that has it, if there is one, meets `p`. -/
def Knows (r : Registry) (id : Int) (p : Server → Prop) : Prop :=
  id < r.nextID ∧ ∀ row, r.row? id = some row → p row.toServer

/-- The token has been drawn, and no row has it. -/
def Gone (r : Registry) (token : Token) : Prop :=
  token < r.nextToken ∧ ∀ row ∈ r.rows, row.token ≠ token

section Laws

variable {r : Registry} {id id' : Int} {p q : Server → Prop} {token : Token}

/-- What holds of the row of an id is known of it. -/
theorem knows_of_row {row : Row} (h : r.row? id = some row) (hp : p row.toServer) :
    r.Knows id p := by
  refine ⟨lt_nextID h, ?_⟩
  intro row' h'
  exact Option.some.inj (h.symm.trans h') ▸ hp

/-- What is known may be weakened. -/
theorem Knows.mono (h : r.Knows id p) (hpq : ∀ server, p server → q server) : r.Knows id q :=
  ⟨h.1, fun row hrow => hpq _ (h.2 row hrow)⟩

private theorem Knows.draw (h : r.Knows id p) : r.draw.Knows id p := h

/-- A new server says nothing of the ones there are. -/
theorem Knows.insert (h : r.Knows id p) (name : String) : (r.insert name).Knows id p := by
  refine ⟨Int.lt_trans h.1 (Int.lt_succ _), ?_⟩
  intro row hrow
  rw [row?_insert, if_neg (Int.ne_of_gt h.1)] at hrow
  exact h.2 row hrow

/-- An update of the server itself has to keep what is known of it. -/
theorem Knows.update {f : Row → Row} (h : r.Knows id p)
    (hf : id' = id → ∀ row : Row, row.id = id → p row.toServer →
      p { f row with id := row.id, token := row.token }.toServer) :
    (r.update id' f).Knows id p := by
  refine ⟨h.1, ?_⟩
  intro row hrow
  rw [row?_update] at hrow
  obtain ⟨old, hold, rfl⟩ := Option.map_eq_some_iff.mp hrow
  have hid := row?_id hold
  split
  next heq => exact hf (heq.symm.trans hid) old hid (h.2 old hold)
  next => exact h.2 old hold

/-- Nothing that a server shows depends on its token. -/
theorem Knows.setToken (h : r.Knows id p) (id' : Int) : (r.setToken id').Knows id p := by
  refine ⟨h.1, ?_⟩
  intro row hrow
  rw [row?_setToken] at hrow
  obtain ⟨old, hold, rfl⟩ := Option.map_eq_some_iff.mp hrow
  split
  next => exact h.2 old hold
  next => exact h.2 old hold

/-- Of a deleted server everything is known. -/
theorem Knows.delete (h : r.Knows id p) (id' : Int) : (r.delete id').Knows id p := by
  refine ⟨h.1, ?_⟩
  intro row hrow
  rw [row?_delete] at hrow
  split at hrow
  next => cases hrow
  next => exact h.2 row hrow

/-- Whatever is said of a deleted server holds. -/
theorem knows_delete (h : id < r.nextID) : (r.delete id).Knows id p := by
  refine ⟨h, ?_⟩
  intro row hrow
  rw [row?_delete, if_pos rfl] at hrow
  cases hrow

private theorem Gone.draw (h : r.Gone token) : r.draw.Gone token := ⟨Nat.lt_succ_of_lt h.1, h.2⟩

/-- A new server gets a token that was never used. -/
theorem Gone.insert (h : r.Gone token) (name : String) : (r.insert name).Gone token := by
  refine ⟨Nat.lt_succ_of_lt h.1, ?_⟩
  intro row hrow
  rcases List.mem_append.mp hrow with hrow | hrow
  · exact h.2 row hrow
  · rw [List.mem_singleton.mp hrow]
    exact Nat.ne_of_gt h.1

/-- An update leaves the tokens, so one that is gone stays gone. -/
theorem Gone.update (h : r.Gone token) (id' : Int) (f : Row → Row) :
    (r.update id' f).Gone token := by
  refine ⟨h.1, ?_⟩
  intro row hrow
  obtain ⟨old, hold, rfl⟩ := List.mem_map.mp hrow
  split
  next => exact h.2 old hold
  next => exact h.2 old hold

/-- A rotation draws a token that was never used. -/
theorem Gone.setToken (h : r.Gone token) (id' : Int) : (r.setToken id').Gone token := by
  refine ⟨Nat.lt_succ_of_lt h.1, ?_⟩
  intro row hrow
  obtain ⟨old, hold, rfl⟩ := List.mem_map.mp hrow
  split
  next => exact Nat.ne_of_gt h.1
  next => exact h.2 old hold

/-- A deletion can only take tokens away. -/
theorem Gone.delete (h : r.Gone token) (id' : Int) : (r.delete id').Gone token :=
  ⟨h.1, fun row hrow => h.2 row (List.mem_filter.mp hrow).1⟩

/-- **A replaced token is nobody's.** -/
theorem gone_setToken {row : Row} (h : r.row? id = some row) :
    (r.setToken id).Gone row.token := by
  obtain ⟨hmem, hid⟩ := row?_iff.mp h
  refine ⟨Nat.lt_succ_of_lt (r.drawn row hmem), ?_⟩
  intro row' hrow'
  obtain ⟨old, hold, rfl⟩ := List.mem_map.mp hrow'
  split
  next => exact Nat.ne_of_gt (r.drawn row hmem)
  next hne =>
    intro htoken
    -- a row that keeps the token is the row itself, which has the id
    have hsame : r.owner? row.token = some old := owner?_iff.mpr ⟨hold, htoken⟩
    have hself : r.owner? row.token = some row := owner?_iff.mpr ⟨hmem, rfl⟩
    rw [hself] at hsame
    exact hne (Option.some.inj hsame ▸ hid)

end Laws

end Registry

namespace Service

section Laws

variable {r : Registry} {id id' : Int} {p : Server → Prop} {token : Token}

/-- What an authenticated report is told of its server is what the registry says. -/
theorem authenticateToken_row {fails : Bool} {server : Server}
    (h : authenticateToken r token fails = .ok server) :
    ∃ row, r.row? server.id = some row ∧ row.toServer = server ∧ row.token = token ∧
      server.enabled = true := by
  obtain ⟨row, howner, henabled, rfl⟩ := authenticateToken_ok h
  obtain ⟨hmem, htoken⟩ := Registry.owner?_iff.mp howner
  exact ⟨row, Registry.row?_iff.mpr ⟨hmem, rfl⟩, rfl, htoken, henabled⟩

/-- `Create` says nothing of the servers there are. -/
theorem knows_create (h : r.Knows id p) (name : String) (outcome : Outcome) :
    (create r name outcome).2.Knows id p := by
  unfold create
  dsimp only
  split
  next => exact h
  next =>
    split
    next => exact h.draw
    next =>
      split
      next => exact h.insert _
      next => dsimp only; split; exacts [h.insert _, h.draw]

/-- `Create` brings no token back. -/
theorem gone_create (h : r.Gone token) (name : String) (outcome : Outcome) :
    (create r name outcome).2.Gone token := by
  unfold create
  dsimp only
  split
  next => exact h
  next =>
    split
    next => exact h.draw
    next =>
      split
      next => exact h.insert _
      next => dsimp only; split; exacts [h.insert _, h.draw]

/-- An update of one server keeps what is known of the others, and of its own what its columns do
not break. -/
theorem knows_update {name : Option String} {enabled : Option Bool} {outcome : Outcome}
    (h : r.Knows id p)
    (hf : id' = id → outcome.applied = true → ∀ server, p server →
      p ⟨server.id, name.getD server.name, enabled.getD server.enabled⟩) :
    (update r id' name enabled outcome).2.Knows id p := by
  have hset : outcome.applied = true → (r.update id' (setColumns name enabled)).Knows id p :=
    fun happlied => h.update fun heq row _ hrow => hf heq happlied row.toServer hrow
  unfold update
  dsimp only
  split
  next applied =>
    split
    next happlied => exact hset happlied
    next => exact h
  next => split; exacts [h, hset rfl]

/-- `Update` brings no token back. -/
theorem gone_update (h : r.Gone token) (name : Option String) (enabled : Option Bool)
    (outcome : Outcome) : (update r id' name enabled outcome).2.Gone token := by
  unfold update
  dsimp only
  split
  next => split; exacts [h.update _ _, h]
  next => split; exacts [h, h.update _ _]

/-- A successful update returns the server as it now is. -/
theorem update_ok {name : Option String} {enabled : Option Bool} {outcome : Outcome}
    {server : Server} (h : (update r id' name enabled outcome).1 = .ok server) :
    server.id = id' ∧ (∀ n, name = some n → server.name = n) ∧
      ∃ row, (update r id' name enabled outcome).2.row? id' = some row ∧
        row.toServer = server := by
  unfold update at h ⊢
  dsimp only at h ⊢
  split at h
  next => cases h
  next =>
    split at h
    next => cases h
    next row hrow =>
      cases h
      refine ⟨Registry.row?_id hrow, ?_, row, hrow, rfl⟩
      intro n hn
      rw [Registry.row?_update] at hrow
      obtain ⟨old, hold, rfl⟩ := Option.map_eq_some_iff.mp hrow
      rw [if_pos (Registry.row?_id hold)]
      simp only [setColumns, hn, Option.getD_some]

theorem knows_delete (h : r.Knows id p) (outcome : Outcome) :
    (delete r id' outcome).2.Knows id p := by
  unfold delete
  split
  next => dsimp only; split; exacts [h.delete _, h]
  next => split; exacts [h, h.delete _]

/-- `Delete` brings no token back. -/
theorem gone_delete (h : r.Gone token) (outcome : Outcome) :
    (delete r id' outcome).2.Gone token := by
  unfold delete
  split
  next => dsimp only; split; exacts [h.delete _, h]
  next => split; exacts [h, h.delete _]

/-- Of a deleted server the registry knows that there is none. -/
theorem delete_ok {outcome : Outcome} (h : (delete r id' outcome).1 = .ok ()) :
    outcome = .ok ∧ (r.row? id').isSome ∧
      (delete r id' outcome).2.Knows id' fun _ => False := by
  unfold delete at h ⊢
  split at h
  next => cases h
  next =>
    split at h
    next => cases h
    next row hrow =>
      cases h
      exact ⟨rfl, by rw [hrow]; rfl, Registry.knows_delete (Registry.lt_nextID hrow)⟩

/-- A rotation changes nothing that a server shows. -/
theorem knows_rotate (h : r.Knows id p) (outcome : Outcome) :
    (rotateTokenWithServer r id' outcome).2.Knows id p := by
  unfold rotateTokenWithServer
  split
  next => dsimp only; split; exacts [h.setToken _, h.draw]
  next => split; exacts [h.draw, h.setToken _]

/-- A rotation brings no token back. -/
theorem gone_rotate (h : r.Gone token) (outcome : Outcome) :
    (rotateTokenWithServer r id' outcome).2.Gone token := by
  unfold rotateTokenWithServer
  split
  next => dsimp only; split; exacts [h.setToken _, h.draw]
  next => split; exacts [h.draw, h.setToken _]

/-- A successful rotation leaves nobody the replaced token. -/
theorem rotate_ok {outcome : Outcome} {answer : Server × Token}
    (h : (rotateTokenWithServer r id' outcome).1 = .ok answer) :
    ∃ row, r.row? id' = some row ∧ (rotateTokenWithServer r id' outcome).2.Gone row.token := by
  unfold rotateTokenWithServer at h ⊢
  split at h
  next => cases h
  next =>
    split at h
    next => cases h
    next row hrow =>
      cases h
      exact ⟨row, hrow, Registry.gone_setToken hrow⟩

/-- The agent's version is in no answer. -/
theorem knows_updateAgentVersion (h : r.Knows id p) (version : String) (outcome : Outcome) :
    (updateAgentVersion r id' version outcome).2.Knows id p := by
  have hset : (r.update id' fun row => { row with agentVersion := version }).Knows id p :=
    h.update fun _ _ _ hrow => hrow
  unfold updateAgentVersion
  dsimp only
  split
  next => split; exacts [hset, h]
  next => split; exacts [h, hset]

/-- The list of servers does not change with the agent's version. -/
theorem servers_updateAgentVersion (version : String) (outcome : Outcome) :
    (updateAgentVersion r id version outcome).2.servers = r.servers := by
  have hset : (r.update id fun row => { row with agentVersion := version }).servers = r.servers :=
    Registry.servers_update fun _ => rfl
  unfold updateAgentVersion
  dsimp only
  split
  next => split; exacts [hset, rfl]
  next => split; exacts [rfl, hset]

/-- The list of servers does not change with a rotation. -/
theorem servers_rotate (outcome : Outcome) :
    (rotateTokenWithServer r id outcome).2.servers = r.servers := by
  unfold rotateTokenWithServer
  split
  next => dsimp only; split; exacts [Registry.servers_setToken, rfl]
  next => split; exacts [rfl, Registry.servers_setToken]

/-- Recording an agent's version brings no token back. -/
theorem gone_updateAgentVersion (h : r.Gone token) (version : String) (outcome : Outcome) :
    (updateAgentVersion r id' version outcome).2.Gone token := by
  unfold updateAgentVersion
  dsimp only
  split
  next => split; exacts [h.update _ _, h]
  next => split; exacts [h, h.update _ _]

end Laws

end Service

end TinyProbe.Servers
