import Mathlib.Data.List.Basic
import Mathlib.Data.List.Nodup
import Mathlib.Data.List.Perm.Basic

/-!
# Rows that refer to each other

A database is a list of rows, whatever tables they are of. A `Schema` says how a row is named and
which names it refers to. A statement is refused when it takes a name that is taken or refers to a
row that is not there; a deletion goes on to the rows that referred to what it removed (`ON DELETE
CASCADE`), one generation after the other.

The generations end (`mem_cascade`): what is left are the rows from which no chain of references
leads to a removed row. A database without dangling references stays without them under every
statement (`Intact.insert`, `Intact.replace`, `Intact.delete`).
-/

namespace TinyProbe

/-- The primary key of a row and its foreign keys. -/
structure Schema (R K : Type*) where
  key : R → K
  refs : R → List K

namespace Schema

variable {R K : Type*} [DecidableEq K] (S : Schema R K)

/-- A row of the name exists. -/
def has (rows : List R) (k : K) : Bool := rows.any (S.key · == k)

/-- Every row a row refers to exists. -/
def resolves (rows : List R) (row : R) : Bool := (S.refs row).all (S.has rows)

/-- The row refers to one of the removed names. -/
def hit (gone : List K) (row : R) : Bool := (S.refs row).any gone.contains

/-- The generations of a deletion, at most `n` of them. -/
def cascade : Nat → List K → List R → List R
  | 0, _, rows => rows
  | n + 1, gone, rows =>
    cascade n ((rows.filter (S.hit gone)).map S.key) (rows.filter (!S.hit gone ·))

/-- `DELETE ... WHERE p`. -/
def delete (p : R → Bool) (rows : List R) : List R :=
  S.cascade rows.length ((rows.filter p).map S.key) (rows.filter (!p ·))

/-- `INSERT`: refused when the name is taken or a reference is dangling. -/
def insert (row : R) (rows : List R) : Option (List R) :=
  if S.has rows (S.key row) || !S.resolves rows row then none else some (rows ++ [row])

/-- `UPDATE ... WHERE p`, of columns other than the primary key: refused when a reference is
dangling. -/
def replace (p : R → Bool) (f : R → R) (rows : List R) : Option (List R) :=
  let written := rows.map fun row => if p row then f row else row
  if written.all (S.resolves rows) then some written else none

/-! ## What no chain of references leads to -/

/-- A chain of references leads from the row to a removed name. -/
inductive Falls (rows : List R) (gone : List K) : R → Prop where
  | direct {row : R} {k : K} : k ∈ S.refs row → k ∈ gone → Falls rows gone row
  | through {row parent : R} : parent ∈ rows → S.key parent ∈ S.refs row →
      Falls rows gone parent → Falls rows gone row

/-- No row refers to a row that is not there. -/
def Intact (rows : List R) : Prop := ∀ row ∈ rows, S.resolves rows row = true

section Laws

variable {S} {rows : List R} {gone : List K} {row : R} {k : K} {p : R → Bool}

/-- A key is there when a row has it. -/
theorem has_iff : S.has rows k = true ↔ ∃ row ∈ rows, S.key row = k := by
  simp only [has, List.any_eq_true, beq_iff_eq]

/-- A row resolves when every key that it refers to is there. -/
theorem resolves_iff :
    S.resolves rows row = true ↔ ∀ k ∈ S.refs row, ∃ r ∈ rows, S.key r = k := by
  simp only [resolves, List.all_eq_true, has_iff]

/-- A row is hit when it refers to one of the keys that are gone. -/
theorem hit_iff : S.hit gone row = true ↔ ∃ k ∈ S.refs row, k ∈ gone := by
  simp only [hit, List.any_eq_true, List.contains_iff_mem]

omit [DecidableEq K] in
/-- Nothing falls when nothing is removed. -/
theorem not_falls_nil : ¬ S.Falls rows [] row := by
  intro h
  induction h with
  | direct _ hk => exact absurd hk List.not_mem_nil
  | through _ _ _ ih => exact ih

private theorem hit_nil : S.hit [] row = false := by
  rw [← Bool.not_eq_true, hit_iff]
  rintro ⟨k, -, hk⟩
  exact absurd hk List.not_mem_nil

/-- Without keys that are gone nothing is deleted. -/
@[simp] theorem cascade_nil (n : Nat) (rows : List R) : S.cascade n [] rows = rows := by
  induction n generalizing rows with
  | zero => rfl
  | succ n ih =>
    have hnone : rows.filter (S.hit []) = [] :=
      List.filter_eq_nil_iff.mpr fun row _ => by rw [hit_nil]; exact Bool.false_ne_true
    simp only [cascade, hnone, List.map_nil, hit_nil, Bool.not_false, List.filter_true, ih]

/-- One generation: a row falls when it is hit, or when it falls with the rows that are hit. -/
theorem falls_iff : S.Falls rows gone row ↔ S.hit gone row = true ∨
    S.Falls (rows.filter (!S.hit gone ·)) ((rows.filter (S.hit gone)).map S.key) row := by
  constructor
  · intro h
    induction h with
    | direct hk hgone => exact Or.inl (hit_iff.mpr ⟨_, hk, hgone⟩)
    | @through row parent hparent hkey _ ih =>
      refine Or.inr ?_
      by_cases hhit : S.hit gone parent = true
      · exact .direct hkey (List.mem_map_of_mem (List.mem_filter.mpr ⟨hparent, hhit⟩))
      · have hrest : parent ∈ rows.filter (!S.hit gone ·) :=
          List.mem_filter.mpr ⟨hparent, by rw [Bool.not_eq_true', ← Bool.not_eq_true]; exact hhit⟩
        exact .through hrest hkey (ih.resolve_left hhit)
  · rintro (h | h)
    · obtain ⟨k, hk, hgone⟩ := hit_iff.mp h
      exact .direct hk hgone
    · induction h with
      | direct hk hgone =>
        obtain ⟨parent, hparent, rfl⟩ := List.mem_map.mp hgone
        obtain ⟨hmem, hhit⟩ := List.mem_filter.mp hparent
        obtain ⟨k, hk', hgone'⟩ := hit_iff.mp hhit
        exact .through hmem hk (.direct hk' hgone')
      | through hparent hkey _ ih => exact .through (List.mem_of_mem_filter hparent) hkey ih

private theorem cascade_subset (n : Nat) (gone : List K) (rows : List R) :
    (S.cascade n gone rows).Sublist rows := by
  induction n generalizing gone rows with
  | zero => exact List.Sublist.refl _
  | succ n ih => exact (ih _ _).trans List.filter_sublist

/-- **The rows a cascade leaves** are those that do not fall, when there are as many generations as
rows. -/
theorem mem_cascade {n : Nat} (hn : rows.length ≤ n) :
    row ∈ S.cascade n gone rows ↔ row ∈ rows ∧ ¬ S.Falls rows gone row := by
  induction n generalizing gone rows with
  | zero =>
    rw [List.length_eq_zero_iff.mp (Nat.le_zero.mp hn)]
    simp only [cascade, List.not_mem_nil, false_and]
  | succ n ih =>
    -- a generation without rows is the last one, and every other one leaves fewer rows
    rw [cascade]
    have hfalls : S.Falls rows gone row ↔ _ := falls_iff
    by_cases hnone : rows.filter (S.hit gone) = []
    · have hall : rows.filter (!S.hit gone ·) = rows := by
        refine List.filter_eq_self.mpr fun r hr => ?_
        have := List.filter_eq_nil_iff.mp hnone r hr
        rw [Bool.not_eq_true', ← Bool.not_eq_true]
        exact this
      rw [hnone, List.map_nil, hall, cascade_nil]
      refine ⟨fun hrow => ⟨hrow, fun h => ?_⟩, And.left⟩
      rw [hnone, hall, List.map_nil] at hfalls
      rcases hfalls.mp h with h | h
      · exact List.filter_eq_nil_iff.mp hnone row hrow h
      · exact not_falls_nil h
    · have hlength : (rows.filter (!S.hit gone ·)).length ≤ n := by
        obtain ⟨r, hr⟩ := List.exists_mem_of_ne_nil _ hnone
        obtain ⟨hmem, hhit⟩ := List.mem_filter.mp hr
        have : (rows.filter (!S.hit gone ·)).length < rows.length := by
          refine List.length_filter_lt_length_iff_exists.mpr ⟨r, hmem, ?_⟩
          simp only [hhit, Bool.not_true, Bool.false_eq_true, not_false_eq_true]
        omega
      rw [ih hlength, List.mem_filter, and_assoc]
      refine and_congr_right fun _ => ?_
      rw [Bool.not_eq_true', ← Bool.not_eq_true, ← not_or, hfalls]

/-- **The rows a deletion leaves**: neither chosen nor led to a chosen one. -/
theorem mem_delete : row ∈ S.delete p rows ↔ row ∈ rows ∧ p row = false ∧
    ¬ S.Falls (rows.filter (!p ·)) ((rows.filter p).map S.key) row := by
  rw [delete, mem_cascade (List.length_filter_le _ _), List.mem_filter, Bool.not_eq_true',
    and_assoc]

/-- **What a deletion takes, by levels.** Where every reference leads to a row of a lower rank, the
rows that go are described by any `P` that holds of a row exactly when it is chosen or holds of a
row it refers to. -/
theorem mem_delete_of_rank {P : R → Prop} (rank : R → Nat)
    (hrank : ∀ row ∈ rows, ∀ parent ∈ rows, S.key parent ∈ S.refs row → rank parent < rank row)
    (hP : ∀ row ∈ rows, P row ↔
      p row = true ∨ ∃ parent ∈ rows, S.key parent ∈ S.refs row ∧ P parent) :
    row ∈ S.delete p rows ↔ row ∈ rows ∧ ¬ P row := by
  have hrest : ∀ {r}, r ∈ rows → p r = false → r ∈ rows.filter (!p ·) := fun hr hp =>
    List.mem_filter.mpr ⟨hr, by rw [hp]; rfl⟩
  rw [mem_delete]
  refine and_congr_right fun hrow => ?_
  rw [← Bool.not_eq_true, ← not_or, not_iff_not]
  constructor
  · rintro (h | h)
    · exact (hP row hrow).mpr (Or.inl h)
    · induction h with
      | direct hk hgone =>
        obtain ⟨parent, hparent, rfl⟩ := List.mem_map.mp hgone
        obtain ⟨hmem, hp⟩ := List.mem_filter.mp hparent
        exact (hP _ hrow).mpr (Or.inr ⟨parent, hmem, hk, (hP parent hmem).mpr (Or.inl hp)⟩)
      | through hparent hkey _ ih =>
        have hmem := List.mem_of_mem_filter hparent
        exact (hP _ hrow).mpr (Or.inr ⟨_, hmem, hkey, ih hmem⟩)
  · -- by induction on the rank
    induction hn : rank row using Nat.strongRecOn generalizing row with
    | _ n ih =>
      intro h
      rcases (hP row hrow).mp h with hp | ⟨parent, hparent, hkey, hPparent⟩
      · exact Or.inl hp
      · refine Or.inr ?_
        rcases ih (rank parent) (hn ▸ hrank row hrow parent hparent hkey) hparent rfl hPparent with
          hp | hfalls
        · exact .direct hkey (List.mem_map_of_mem (List.mem_filter.mpr ⟨hparent, hp⟩))
        · by_cases hp : p parent = true
          · exact .direct hkey (List.mem_map_of_mem (List.mem_filter.mpr ⟨hparent, hp⟩))
          · exact .through (hrest hparent (Bool.eq_false_iff.mpr hp)) hkey hfalls

/-- A delete leaves some of the rows, in their order. -/
theorem delete_sublist (p : R → Bool) (rows : List R) : (S.delete p rows).Sublist rows :=
  (cascade_subset _ _ _).trans List.filter_sublist

/-- A deletion that chooses no row leaves every row. -/
theorem delete_none (h : ∀ row ∈ rows, p row = false) : S.delete p rows = rows := by
  have hnone : rows.filter p = [] :=
    List.filter_eq_nil_iff.mpr fun row hrow => by rw [h row hrow]; exact Bool.false_ne_true
  rw [delete, hnone, List.map_nil, cascade_nil]
  exact List.filter_eq_self.mpr fun row hrow => by rw [h row hrow, Bool.not_false]

/-- A row is inserted when its key is free and its references resolve. -/
theorem insert_eq_some {rows' : List R} : S.insert row rows = some rows' ↔
    S.has rows (S.key row) = false ∧ S.resolves rows row = true ∧ rows' = rows ++ [row] := by
  unfold insert
  cases S.has rows (S.key row) <;> cases S.resolves rows row <;>
    simp only [Bool.or_true, Bool.or_false, Bool.not_true, Bool.not_false, if_true, reduceCtorEq,
      false_and, and_false, Bool.false_eq_true, if_false, Option.some.injEq, true_and,
      eq_comm]

/-- Rows are replaced when all of them still resolve. -/
theorem replace_eq_some {f : R → R} {rows' : List R} : S.replace p f rows = some rows' ↔
    rows' = (rows.map fun row => if p row then f row else row) ∧
      ∀ row ∈ rows', S.resolves rows row = true := by
  unfold replace
  dsimp only
  split
  next h =>
    rw [List.all_eq_true] at h
    constructor
    · rintro ⟨⟩
      exact ⟨rfl, h⟩
    · rintro ⟨rfl, -⟩
      rfl
  next h =>
    rw [List.all_eq_true] at h
    constructor
    · rintro ⟨⟩
    · rintro ⟨rfl, hall⟩
      exact absurd hall h

/-! ## References stay intact -/

theorem resolves_mono {rows' : List R} (hsub : ∀ r ∈ rows, ∃ r' ∈ rows', S.key r' = S.key r)
    (h : S.resolves rows row = true) : S.resolves rows' row = true := by
  refine resolves_iff.mpr fun k hk => ?_
  obtain ⟨r, hr, rfl⟩ := resolves_iff.mp h k hk
  exact hsub r hr

/-- Inserting keeps the references intact. -/
theorem Intact.insert {rows' : List R} (h : S.Intact rows) (hrun : S.insert row rows = some rows') :
    S.Intact rows' := by
  obtain ⟨-, hresolves, rfl⟩ := insert_eq_some.mp hrun
  have hsub : ∀ r ∈ rows, ∃ r' ∈ rows ++ [row], S.key r' = S.key r := fun r hr =>
    ⟨r, List.mem_append_left _ hr, rfl⟩
  intro r hr
  rcases List.mem_append.mp hr with hr | hr
  · exact resolves_mono hsub (h r hr)
  · rw [List.mem_singleton.mp hr]
    exact resolves_mono hsub hresolves

/-- Replacing keeps them intact, as it keeps the keys. -/
theorem Intact.replace {rows' : List R} {f : R → R} (hkey : ∀ row, S.key (f row) = S.key row)
    (hrun : S.replace p f rows = some rows') : S.Intact rows' := by
  obtain ⟨rfl, hall⟩ := replace_eq_some.mp hrun
  refine fun row hrow => resolves_mono (fun r hr => ?_) (hall row hrow)
  refine ⟨_, List.mem_map_of_mem hr, ?_⟩
  split
  next => exact hkey r
  next => rfl

/-- What a row refers to is chosen by a deletion, falls with it, or stays. -/
theorem Intact.delete (h : S.Intact rows) (p : R → Bool) : S.Intact (S.delete p rows) := by
  intro row hrow
  obtain ⟨hmem, -, hfalls⟩ := mem_delete.mp hrow
  refine resolves_iff.mpr fun k hk => ?_
  obtain ⟨parent, hparent, rfl⟩ := resolves_iff.mp (h row hmem) k hk
  have hkept : p parent = false := by
    rw [← Bool.not_eq_true]
    exact fun hp => hfalls (.direct hk (List.mem_map_of_mem (List.mem_filter.mpr ⟨hparent, hp⟩)))
  have hrest : parent ∈ rows.filter (!p ·) := List.mem_filter.mpr ⟨hparent, by rw [hkept]; rfl⟩
  exact ⟨parent, mem_delete.mpr ⟨hparent, hkept, fun hp => hfalls (.through hrest hk hp)⟩, rfl⟩

end Laws

end Schema

end TinyProbe
