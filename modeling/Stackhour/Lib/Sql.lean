import Stackhour.Lib.Migrations

/-!
# Schema statements

The few statements of which migrations are made, on tables whose rows are lists of
named values. A column keeps the text of its declaration.
-/

namespace Sql

inductive Value where
  | null
  | int (n : ℤ)
  | real (bits : BitVec 64)
  | text (s : String)
deriving DecidableEq

structure Column where
  name : String
  declared : String
deriving DecidableEq

abbrev Row := List (String × Value)

structure Table where
  name : String
  columns : List Column
  constraints : List String
  rows : List Row
deriving DecidableEq

structure Index where
  name : String
  table : String
  unique : Bool
  columns : List String
deriving DecidableEq

structure Schema where
  tables : List Table
  indexes : List Index
deriving DecidableEq

namespace Schema

def empty : Schema := ⟨[], []⟩

def table (d : Schema) (name : String) : Option Table :=
  d.tables.find? (fun t => decide (t.name = name))

def hasTable (d : Schema) (name : String) : Bool := d.tables.any (fun t => decide (t.name = name))

def hasIndex (d : Schema) (name : String) : Bool := d.indexes.any (fun i => decide (i.name = name))

/-- `PRAGMA table_info`. -/
def columnNames (d : Schema) (name : String) : List String :=
  ((d.table name).map (fun t => t.columns.map Column.name)).getD []

/-- Rewrites the tables of a name. -/
def mapTable (d : Schema) (name : String) (f : Table → Table) : Schema :=
  { d with tables := d.tables.map (fun t => if t.name = name then f t else t) }

end Schema

abbrev Statement := Migrations.Statement Schema

/-- `CREATE TABLE`. -/
def createTable (ifNotExists : Bool) (t : Table) : Statement := fun d =>
  if d.hasTable t.name then
    if ifNotExists then .ok d else .error ("table " ++ t.name ++ " already exists")
  else .ok { d with tables := d.tables ++ [t] }

/-- `ALTER TABLE … ADD COLUMN`, with the value of the rows that are there. -/
def addColumn (table : String) (column : Column) (value : Value) : Statement := fun d =>
  if !d.hasTable table then .error ("no such table: " ++ table)
  else if (d.columnNames table).contains column.name then
    .error ("duplicate column name: " ++ column.name)
  else
    .ok (d.mapTable table (fun t =>
      { t with
        columns := t.columns ++ [column]
        rows := t.rows.map (fun row => row ++ [(column.name, value)]) }))

/-- The values of an index; a row with a null is equal to no other. -/
def indexKey (columns : List String) (row : Row) : Option (List Value) :=
  columns.mapM (fun c => (row.lookup c).filter (fun v => decide (v ≠ .null)))

/-- `CREATE INDEX`. -/
def createIndex (ifNotExists : Bool) (i : Index) : Statement := fun d =>
  if d.hasIndex i.name then
    if ifNotExists then .ok d else .error ("index " ++ i.name ++ " already exists")
  else
    match d.table i.table with
    | none => .error ("no such table: main." ++ i.table)
    | some t =>
        if !i.columns.all (fun c => (t.columns.map Column.name).contains c) then
          .error ("table " ++ i.table ++ " has no such column")
        else if i.unique && !decide (t.rows.filterMap (indexKey i.columns)).Nodup then
          .error ("UNIQUE constraint failed: " ++ i.name)
        else .ok { d with indexes := d.indexes ++ [i] }

/-- `DROP INDEX IF EXISTS`. -/
def dropIndex (name : String) : Statement := fun d =>
  .ok { d with indexes := d.indexes.filter (fun i => decide (i.name ≠ name)) }

/-- `UPDATE` of a table whose condition and value read the columns `reads`. -/
def update (table : String) (reads : List String) (f : Row → Row) : Statement := fun d =>
  if !d.hasTable table then .error ("no such table: " ++ table)
  else if !reads.all (fun c => (d.columnNames table).contains c) then .error "no such column"
  else .ok (d.mapTable table (fun t => { t with rows := t.rows.map f }))

/-! ## Statements that repeat -/

/-- The statement leaves the tables as they are. -/
def Settles (statement : Statement) (d : Schema) : Prop := statement d = .ok d

theorem createTable_settles {t : Table} {d : Schema} (h : d.hasTable t.name = true) :
    Settles (createTable true t) d := by
  unfold Settles createTable
  rw [if_pos h, if_pos rfl]

theorem createIndex_settles {i : Index} {d : Schema} (h : d.hasIndex i.name = true) :
    Settles (createIndex true i) d := by
  unfold Settles createIndex
  rw [if_pos h, if_pos rfl]

theorem dropIndex_settles {name : String} {d : Schema} (h : d.hasIndex name = false) :
    Settles (dropIndex name) d := by
  have hkeep : d.indexes.filter (fun i => decide (i.name ≠ name)) = d.indexes := by
    refine List.filter_eq_self.mpr ?_
    intro i hi
    rw [decide_eq_true_iff]
    intro hname
    have hany : d.hasIndex name = true := List.any_eq_true.mpr ⟨i, hi, decide_eq_true hname⟩
    rw [h] at hany
    cases hany
  unfold Settles dropIndex
  rw [hkeep]

theorem createTable_ok {t : Table} {d e : Schema} (h : createTable true t d = .ok e) :
    e.hasTable t.name = true ∧ e.indexes = d.indexes ∧
      ∀ name, d.hasTable name = true → e.hasTable name = true := by
  unfold createTable at h
  split at h
  · next hthere =>
      obtain rfl := Except.ok.inj h
      exact ⟨hthere, rfl, fun name hname => hname⟩
  · obtain rfl := Except.ok.inj h
    refine ⟨?_, rfl, ?_⟩
    · show (d.tables ++ [t]).any _ = true
      simp
    · intro name hname
      show (d.tables ++ [t]).any _ = true
      rw [List.any_append, show d.tables.any (fun u => decide (u.name = name)) = true from hname]
      rfl

theorem createIndex_ok {i : Index} {d e : Schema} (h : createIndex true i d = .ok e) :
    e.hasIndex i.name = true ∧ e.tables = d.tables ∧
      ∀ name, name ≠ i.name → e.hasIndex name = d.hasIndex name := by
  unfold createIndex at h
  split at h
  · next hthere =>
      obtain rfl := Except.ok.inj h
      exact ⟨hthere, rfl, fun name _ => rfl⟩
  · split at h
    · cases h
    · split at h
      · cases h
      · split at h
        · cases h
        · obtain rfl := Except.ok.inj h
          refine ⟨?_, rfl, ?_⟩
          · show (d.indexes ++ [i]).any _ = true
            simp
          · intro name hname
            show (d.indexes ++ [i]).any _ = d.indexes.any _
            rw [List.any_append]
            simp [Ne.symm hname]

theorem dropIndex_ok {name : String} {d e : Schema} (h : dropIndex name d = .ok e) :
    e.hasIndex name = false ∧ e.tables = d.tables := by
  obtain rfl := Except.ok.inj h
  refine ⟨?_, rfl⟩
  show (d.indexes.filter _).any _ = false
  rw [List.any_eq_false]
  intro i hi
  simpa using (List.mem_filter.mp hi).2

end Sql
