import TinyProbe.Lib.Run
import Mathlib.Data.List.Sort
import Mathlib.Data.String.Basic

/-!
# Migrations

`ApplyMigrations`, over a database whose statements may fail, and on a machine that may crash at
any of them. Transactions are atomic: one that is not committed has no effect, and a commit that
fails has none, but a crash may come before the commit or after it. `D` is what the tables hold
other than `schema_migrations`, and the body of a file is what it makes of them, or that it cannot
be executed.

`executed` is a record of the bodies that were committed, which the code does not keep. A run that
crashes leaves the state of the database at that point, so the states between two statements are
among those that runs lead to.
-/

namespace TinyProbe.Db

open Run

/-- How a statement ends; `applied` says if a crash has come after it. -/
inductive Fate where
  | ok
  | failed
  | crashed (applied : Bool)
deriving DecidableEq

/-- How `ApplyMigrations` ends. -/
inductive Result where
  | returned
  /-- An error was returned, from the loop in the iteration of a file. -/
  | failed (name : Option String)
  | crashed
deriving DecidableEq

variable {D : Type}

/-- An entry of the directory. -/
structure Entry (D : Type) where
  name : String
  isDir : Bool
  body : D → Option D

/-- `migrations.Files`. -/
structure Files (D : Type) where
  entries : List (Entry D)
  unique : (entries.map Entry.name).Nodup

namespace Files

/-- The names of the files, as `sort.Strings` leaves them. -/
def names (files : Files D) : List String :=
  ((files.entries.filter fun entry => !entry.isDir).map Entry.name).insertionSort (· ≤ ·)

/-- `ReadFile`. -/
def readFile? (files : Files D) (name : String) : Option (D → Option D) :=
  (files.entries.find? fun entry => !entry.isDir && entry.name == name).map Entry.body

/-- What executing files one after the other makes of the tables. -/
def replay (files : Files D) : List String → D → Option D
  | [], tables => some tables
  | name :: names, tables =>
    (files.readFile? name).bind fun body => (body tables).bind (files.replay names)

end Files

/-- The database. `schema_migrations` need not exist, and its key is `name`. -/
structure Database (D : Type) where
  tables : D
  migrations : Option (List String)
  executed : List String
  key : (migrations.getD []).Nodup

namespace Database

/-- The names in `schema_migrations`. -/
def recorded (db : Database D) : List String := db.migrations.getD []

/-- A database in which some files are applied. -/
def start (tables : D) (migrations : Option (List String)) (key : (migrations.getD []).Nodup) :
    Database D :=
  { tables, migrations, executed := migrations.getD [], key }

/-- `CREATE TABLE IF NOT EXISTS schema_migrations`. -/
def createTable (db : Database D) : Database D :=
  { db with migrations := some db.recorded, key := db.key }

/-- The body of a file is executed and its name is inserted. -/
def apply (db : Database D) (name : String) (tables : D) (h : name ∉ db.recorded) : Database D :=
  { tables
    migrations := some (db.recorded ++ [name])
    executed := db.executed ++ [name]
    key := List.nodup_append.mpr ⟨db.key, List.nodup_singleton _, fun _ hold _ hnew heq =>
      h (List.mem_singleton.mp hnew ▸ heq ▸ hold)⟩ }

end Database

/-- The fates of the statements of one iteration. -/
structure Fates where
  query : Fate
  readFile : Fate
  beginTx : Fate
  exec : Fate
  insert : Fate
  commit : Fate
deriving DecidableEq

/-- The fates of the statements of one run. -/
structure Trial where
  create : Fate
  readDir : Fate
  file : String → Fates

/-- What comes after a statement that changes nothing, or nothing outside a transaction. -/
def Fate.andThen (fate : Fate) (stop : Result) (db : Database D)
    (next : Option Result × Database D) : Option Result × Database D :=
  match fate with
  | .ok => next
  | .failed => (some stop, db)
  | .crashed _ => (some .crashed, db)

/-- An iteration of the loop, and with which result the function returns from it. -/
def applyFile (files : Files D) (name : String) (fates : Fates) (db : Database D) :
    Option Result × Database D :=
  let stop := Result.failed (some name)
  fates.query.andThen stop db <|
    if db.recorded.count name = 1 then (none, db)
    else fates.readFile.andThen stop db <|
      match files.readFile? name with
      | none => (some stop, db)
      | some body => fates.beginTx.andThen stop db <| fates.exec.andThen stop db <|
        match body db.tables with
        | none => (some stop, db)
        | some tables => fates.insert.andThen stop db <|
          if h : name ∈ db.recorded then (some stop, db)
          else
            match fates.commit with
            | .ok => (none, db.apply name tables h)
            | .failed => (some stop, db)
            | .crashed applied => (some .crashed, if applied then db.apply name tables h else db)

/-- The loop. -/
def applyFiles (files : Files D) (fates : String → Fates) :
    List String → Database D → Result × Database D
  | [], db => (.returned, db)
  | name :: names, db =>
    match applyFile files name (fates name) db with
    | (none, db) => applyFiles files fates names db
    | (some result, db) => (result, db)

def applyMigrations (files : Files D) (trial : Trial) (db : Database D) : Result × Database D :=
  match trial.create with
  | .failed => (.failed none, db)
  | .crashed applied => (.crashed, if applied then db.createTable else db)
  | .ok =>
    match trial.readDir with
    | .failed => (.failed none, db.createTable)
    | .crashed _ => (.crashed, db.createTable)
    | .ok => applyFiles files trial.file files.names db.createTable

/-- What a run of `ApplyMigrations` leaves. -/
def step (files : Files D) (db : Database D) (trial : Trial) : Database D :=
  (applyMigrations files trial db).2

/-! ## One iteration -/

section Laws

variable {files : Files D} {db : Database D} {name : String}

/-- Creating the table records nothing. -/
@[simp] theorem recorded_createTable : db.createTable.recorded = db.recorded := rfl

/-- Applying a file records its name. -/
@[simp] theorem recorded_apply {tables : D} (h : name ∉ db.recorded) :
    (db.apply name tables h).recorded = db.recorded ++ [name] := rfl

/-- The names of the files ascend. -/
theorem strictly_sorted_names (files : Files D) : files.names.Pairwise (· < ·) := by
  have hnodup : files.names.Nodup := by
    refine (List.perm_insertionSort _ _).nodup_iff.mpr ?_
    exact files.unique.sublist (List.filter_sublist.map _)
  have hsorted : files.names.Pairwise (· ≤ ·) := List.pairwise_insertionSort _ _
  exact hsorted.imp₂ (fun _ _ hle hne => lt_of_le_of_ne hle hne) hnodup

/-- Files are replayed one after the other. -/
theorem replay_append (names names' : List String) (tables : D) :
    files.replay (names ++ names') tables =
      (files.replay names tables).bind (files.replay names') := by
  induction names generalizing tables with
  | nil => rfl
  | cons name names ih =>
    rw [List.cons_append, Files.replay, Files.replay, Option.bind_assoc]
    congr 1
    funext body
    rw [Option.bind_assoc]
    congr 1
    funext tables'
    exact ih tables'

/-- What an iteration does. -/
inductive Visited (files : Files D) (name : String) (db : Database D) :
    Option Result × Database D → Prop where
  | skipped (h : name ∈ db.recorded) : Visited files name db (none, db)
  | failed : Visited files name db (some (.failed (some name)), db)
  | crashed : Visited files name db (some .crashed, db)
  | applied (result : Option Result) (hresult : result = none ∨ result = some .crashed)
      (tables : D) (hreplay : files.replay [name] db.tables = some tables)
      (h : name ∉ db.recorded) : Visited files name db (result, db.apply name tables h)

/-- A fate lets the iteration go on, or ends it before it has done anything. -/
theorem visited_andThen (fate : Fate) {next : Option Result × Database D}
    (h : Visited files name db next) :
    Visited files name db (fate.andThen (.failed (some name)) db next) := by
  cases fate with
  | ok => exact h
  | failed => exact .failed
  | crashed => exact .crashed

/-- Replaying one file runs its body. -/
theorem replay_singleton {body : D → Option D} (hread : files.readFile? name = some body)
    (tables : D) : files.replay [name] tables = body tables := by
  rw [Files.replay, hread, Option.bind_some]
  exact Option.bind_fun_some (body tables)

/-- **An iteration applies its file or changes nothing.** -/
theorem visited_applyFile (fates : Fates) :
    Visited files name db (applyFile files name fates db) := by
  unfold applyFile
  refine visited_andThen _ ?_
  split
  next hcount => exact .skipped (List.count_pos_iff.mp (hcount ▸ Nat.one_pos))
  next =>
    refine visited_andThen _ ?_
    split
    next => exact .failed
    next body hread =>
      refine visited_andThen _ (visited_andThen _ ?_)
      split
      next => exact .failed
      next tables hbody =>
        have hreplay := (replay_singleton hread db.tables).trans hbody
        refine visited_andThen _ ?_
        split
        next => exact .failed
        next hnew =>
          split
          next => exact .applied none (Or.inl rfl) tables hreplay hnew
          next => exact .failed
          next applied _ =>
            cases applied with
            | false => exact .crashed
            | true => exact .applied (some .crashed) (Or.inr rfl) tables hreplay hnew

/-! ## One run -/

/-- What a pass over some files, in their order, leaves of a database. -/
structure Pass (files : Files D) (names : List String) (db : Database D) (result : Result)
    (db' : Database D) : Prop where
  /-- What is new was missing, and comes in the order of the files. -/
  grown : ∃ new, db'.recorded = db.recorded ++ new ∧ db'.executed = db.executed ++ new ∧
    new.Sublist names ∧ (∀ g ∈ new, g ∉ db.recorded) ∧
      files.replay new db.tables = some db'.tables
  returned : result = .returned → ∀ g ∈ names, g ∈ db'.recorded
  failed : ∀ f, result = .failed (some f) → f ∈ names ∧
    (∀ g ∈ names, g < f → g ∈ db'.recorded) ∧ (f ∈ db'.recorded ↔ f ∈ db.recorded)

/-- A pass records names and forgets none. -/
theorem Pass.mono {names : List String} {result : Result} {db' : Database D}
    (h : Pass files names db result db') {g : String} (hg : g ∈ db.recorded) : g ∈ db'.recorded := by
  obtain ⟨new, hrecorded, _⟩ := h.grown
  rw [hrecorded]
  exact List.mem_append_left _ hg

/-- A pass that ends at once. -/
theorem pass_same {names : List String} {result : Result}
    (hreturned : result = .returned → names = [])
    (hfailed : ∀ f, result = .failed (some f) → names.head? = some f)
    (hsorted : names.Pairwise (· < ·)) : Pass files names db result db where
  grown := ⟨[], (List.append_nil _).symm, (List.append_nil _).symm, List.nil_sublist _,
    fun _ h => absurd h List.not_mem_nil, rfl⟩
  returned hresult g hg := by
    rw [hreturned hresult] at hg
    exact absurd hg List.not_mem_nil
  failed f hresult := by
    obtain ⟨rest, rfl⟩ := List.head?_eq_some_iff.mp (hfailed f hresult)
    refine ⟨List.mem_cons_self, fun g hg hlt => ?_, Iff.rfl⟩
    rcases List.mem_cons.mp hg with rfl | hrest
    · exact absurd hlt (lt_irrefl g)
    · exact absurd (List.rel_of_pairwise_cons hsorted hrest) (lt_asymm hlt)

/-- A pass goes on after a file that is applied already. -/
theorem Pass.skip {names : List String} {result : Result} {db' : Database D}
    (h : Pass files names db result db') (hname : name ∈ db.recorded) :
    Pass files (name :: names) db result db' where
  grown := by
    obtain ⟨new, hrecorded, hexecuted, hsublist, hrest⟩ := h.grown
    exact ⟨new, hrecorded, hexecuted, hsublist.cons name, hrest⟩
  returned hresult := List.forall_mem_cons.mpr ⟨h.mono hname, h.returned hresult⟩
  failed f hresult := by
    obtain ⟨hf, hbefore, hiff⟩ := h.failed f hresult
    exact ⟨List.mem_cons_of_mem _ hf,
      List.forall_mem_cons.mpr ⟨fun _ => h.mono hname, hbefore⟩, hiff⟩

/-- And after one that it has applied. -/
theorem Pass.apply {names : List String} {result : Result} {db' : Database D} {tables : D}
    (hname : name ∉ db.recorded) (h : Pass files names (db.apply name tables hname) result db')
    (hreplay : files.replay [name] db.tables = some tables)
    (hsorted : (name :: names).Pairwise (· < ·)) : Pass files (name :: names) db result db' where
  grown := by
    obtain ⟨new, hrecorded, hexecuted, hsublist, hnew, hrest⟩ := h.grown
    refine ⟨name :: new, ?_, ?_, hsublist.cons_cons name, ?_, ?_⟩
    · rw [hrecorded, recorded_apply, List.append_assoc, List.singleton_append]
    · rw [hexecuted]
      exact List.append_assoc ..
    · refine List.forall_mem_cons.mpr ⟨hname, fun g hg hold => hnew g hg ?_⟩
      exact List.mem_append_left _ hold
    · rw [← List.singleton_append, replay_append, hreplay]
      exact hrest
  returned hresult := by
    refine List.forall_mem_cons.mpr ⟨h.mono ?_, h.returned hresult⟩
    exact List.mem_append_right _ (List.mem_singleton_self name)
  failed f hresult := by
    obtain ⟨hf, hbefore, hiff⟩ := h.failed f hresult
    have hlt : name < f := List.rel_of_pairwise_cons hsorted hf
    refine ⟨List.mem_cons_of_mem _ hf, List.forall_mem_cons.mpr ⟨fun _ => h.mono ?_, hbefore⟩, ?_⟩
    · exact List.mem_append_right _ (List.mem_singleton_self name)
    · rw [hiff, recorded_apply, List.mem_append, List.mem_singleton]
      exact or_iff_left fun heq => lt_irrefl f (heq ▸ hlt)

/-- **The loop**, by induction on the files that are left. -/
theorem pass_applyFiles (fates : String → Fates) {names : List String} (db : Database D)
    (hsorted : names.Pairwise (· < ·)) :
    Pass files names db (applyFiles files fates names db).1 (applyFiles files fates names db).2 := by
  induction names generalizing db with
  | nil => exact pass_same (fun _ => rfl) (fun f h => by cases h) hsorted
  | cons name names ih =>
    have hrest := hsorted.of_cons
    have hvisited : Visited files name db (applyFile files name (fates name) db) :=
      visited_applyFile (fates name)
    rw [applyFiles]
    generalize applyFile files name (fates name) db = visit at hvisited ⊢
    cases hvisited with
    | skipped hold => exact (ih db hrest).skip hold
    | failed =>
      refine pass_same (fun h => by cases h) (fun f h => ?_) hsorted
      cases h
      rfl
    | crashed => exact pass_same (fun h => by cases h) (fun f h => by cases h) hsorted
    | applied result hresult tables hreplay hnew =>
      rcases hresult with rfl | rfl
      · exact Pass.apply hnew (ih _ hrest) hreplay hsorted
      · refine Pass.apply hnew ?_ hreplay hsorted
        exact pass_same (fun h => by cases h) (fun f h => by cases h) hrest

/-- Creating an empty table applies nothing. -/
theorem Pass.createTable {names : List String} {result : Result} {db' : Database D}
    (h : Pass files names db.createTable result db') : Pass files names db result db' :=
  ⟨h.grown, h.returned, h.failed⟩

/-- `applyMigrations` is a pass over the files in the order of their names. -/
theorem pass_applyMigrations (files : Files D) (trial : Trial) (db : Database D) :
    Pass files files.names db (applyMigrations files trial db).1 (applyMigrations files trial db).2 := by
  have hsorted := strictly_sorted_names files
  have hended : ∀ {result : Result} (db : Database D), result = .failed none ∨ result = .crashed →
      Pass files files.names db result db := fun db hresult =>
    pass_same (fun h => by rcases hresult with rfl | rfl <;> cases h)
      (fun f h => by rcases hresult with rfl | rfl <;> cases h) hsorted
  unfold applyMigrations
  split
  next => exact hended db (Or.inl rfl)
  next applied _ =>
    cases applied with
    | false => exact hended db (Or.inr rfl)
    | true => exact (hended db.createTable (Or.inr rfl)).createTable
  next =>
    split
    next => exact (hended db.createTable (Or.inl rfl)).createTable
    next => exact (hended db.createTable (Or.inr rfl)).createTable
    next => exact (pass_applyFiles trial.file db.createTable hsorted).createTable

end Laws

/-! ## Every sequence of runs -/

/-- What is on record of a database that came from `start`. -/
structure Inv (files : Files D) (start db : Database D) : Prop where
  executed : db.executed = db.recorded
  replayed : ∃ new, db.executed = start.executed ++ new ∧
    files.replay new start.tables = some db.tables

/-- What a run does to a database. -/
structure Upgrades (files : Files D) (db : Database D) (result : Result) (db' : Database D) :
    Prop where
  /-- Missing files are applied, in the order of their names. -/
  applied : ∃ new, db'.executed = db.executed ++ new ∧ new.Pairwise (· < ·) ∧
    ∀ g ∈ new, g ∈ files.names ∧ g ∉ db.executed
  returned : result = .returned → ∀ g ∈ files.names, g ∈ db'.executed
  /-- A run that fails at a file has applied those before it, and leaves this one as it was. -/
  failed : ∀ f, result = .failed (some f) → f ∈ files.names ∧
    (∀ g ∈ files.names, g < f → g ∈ db'.executed) ∧ (f ∈ db'.executed ↔ f ∈ db.executed)

section Runs

variable {files : Files D} {start db : Database D}

/-- Every trial keeps what the recorded files have made of the database. -/
theorem Inv.step (h : Inv files start db) (trial : Trial) : Inv files start (step files db trial) := by
  obtain ⟨new, hrecorded, hexecuted, _, _, hreplay⟩ :=
    (pass_applyMigrations files trial db).grown
  obtain ⟨old, hold, hreplayed⟩ := h.replayed
  refine ⟨?_, old ++ new, ?_, ?_⟩
  · exact hexecuted.trans ((congrArg (· ++ new) h.executed).trans hrecorded.symm)
  · exact hexecuted.trans ((congrArg (· ++ new) hold).trans (List.append_assoc ..))
  · rw [replay_append, hreplayed]
    exact hreplay

/-- Every trial upgrades it, or stops at the file that fails. -/
theorem Inv.upgrades (h : Inv files start db) (trial : Trial) :
    Upgrades files db (applyMigrations files trial db).1 (applyMigrations files trial db).2 := by
  have hpass := pass_applyMigrations files trial db
  have hexecuted' : (applyMigrations files trial db).2.executed =
      (applyMigrations files trial db).2.recorded := (h.step trial).executed
  obtain ⟨new, _, hexecuted, hsublist, hmissing, _⟩ := hpass.grown
  rw [hexecuted'] at hexecuted
  constructor
  · rw [hexecuted', h.executed]
    rw [h.executed] at hexecuted
    exact ⟨new, hexecuted, (strictly_sorted_names files).sublist hsublist,
      fun g hg => ⟨hsublist.subset hg, hmissing g hg⟩⟩
  · rw [hexecuted']
    exact hpass.returned
  · rw [hexecuted', h.executed]
    exact hpass.failed

end Runs

/-- **Migrations are applied once, and resumably.** After every sequence of runs that fail or
crash at any of their statements, a file is recorded exactly if it was executed, none was executed
twice, and the tables are what executing the files has made of those at the start. -/
theorem migrations_resumable (files : Files D) (tables : D) (migrations : Option (List String))
    (key : (migrations.getD []).Nodup) (trials : List Trial) :
    let db := run (step files) (.start tables migrations key) trials
    (∀ name, name ∈ db.recorded ↔ name ∈ db.executed) ∧ db.executed.Nodup ∧
      (∃ new, db.executed = migrations.getD [] ++ new ∧ files.replay new tables = some db.tables) ∧
      ∀ trial, Upgrades files db (applyMigrations files trial db).1 (applyMigrations files trial db).2 := by
  intro db
  have hstart : Inv files (.start tables migrations key) (.start tables migrations key) :=
    ⟨rfl, [], (List.append_nil _).symm, rfl⟩
  have hinv : Inv files (.start tables migrations key) db :=
    run_invariant (fun _ trial h => h.step trial) hstart trials
  refine ⟨fun name => ?_, ?_, hinv.replayed, hinv.upgrades⟩
  · rw [hinv.executed]
  · rw [hinv.executed]
    exact db.key

def core : Files Nat :=
  { entries := [⟨"001_core.sql", false, fun tables => some (tables + 1)⟩]
    unique := List.nodup_singleton _ }

/-- Every statement of an iteration succeeds. -/
def smooth : Fates :=
  { query := .ok, readFile := .ok, beginTx := .ok, exec := .ok, insert := .ok, commit := .ok }

/-- A run crashes before its commit, another one right after it. -/
def crashes : List Trial :=
  [{ create := .ok, readDir := .ok, file := fun _ => { smooth with commit := .crashed false } },
    { create := .ok, readDir := .ok, file := fun _ => { smooth with commit := .crashed true } }]

/-- One start crashes before it commits, the next one right after. -/
theorem crashes_applied :
    let db := run (step core) (.start 0 none List.nodup_nil) crashes
    db.tables = 1 ∧ "001_core.sql" ∈ db.recorded ∧ db.executed.Nodup := by
  intro db
  obtain ⟨hiff, hnodup, _⟩ := migrations_resumable core 0 none List.nodup_nil crashes
  have hexecuted : "001_core.sql" ∈ db.executed := by decide
  exact ⟨by decide, (hiff _).mpr hexecuted, hnodup⟩

/-- The check of a file fails. -/
def unchecked : Trial :=
  { create := .ok, readDir := .ok, file := fun _ => { smooth with query := .failed } }

/-- A run may fail at a file that an earlier run has applied. -/
theorem fails_at_applied :
    let db := Database.start 1 (some ["001_core.sql"]) (List.nodup_singleton _)
    (applyMigrations core unchecked db).1 = .failed (some "001_core.sql") ∧
      "001_core.sql" ∈ (applyMigrations core unchecked db).2.executed := by
  decide

end TinyProbe.Db
