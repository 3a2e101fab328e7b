import ChangePilot.Library.Effects
import ChangePilot.Library.Transaction
import Mathlib.Data.List.Sort
import Mathlib.Logic.Function.Basic

/-!
# Tables, statements and connections

The part of SQL that a program with a few tables needs: tables with declared columns, the
statements that create, change and read them, and the connection through which they run.
A statement does all that it says, or fails and does nothing.  A connection opens a
transaction by itself before a statement that changes rows; a statement that changes the
schema runs in the open transaction, and is there to stay if none is open.
-/

namespace Sql

inductive Value where
  | null
  | integer (value : ℤ)
  | text (value : String)
  deriving DecidableEq, Repr

inductive Error where
  | operationalError (message : String)
  | integrityError (message : String)
  | overflowError (message : String)
  deriving DecidableEq, Repr

/-- A column as it is declared; `atLeast` is a `CHECK (column >= bound)`. -/
structure Column where
  name : String
  type : String
  notNull : Bool := false
  default : Value := .null
  primaryKey : Bool := false
  unique : Bool := false
  atLeast : Option ℤ := none
  deriving DecidableEq, Repr

/-- The values of a row, under the names of their columns. -/
abbrev Row := List (String × Value)

def Row.get (row : Row) (column : String) : Value := (row.lookup column).getD .null

@[simp] theorem Row.get_nil (column : String) : Row.get [] column = .null := rfl

@[simp] theorem Row.get_cons (name : String) (value : Value) (rest : Row) (column : String) :
    Row.get ((name, value) :: rest) column = if column = name then value else rest.get column := by
  rw [get, List.lookup_cons]
  by_cases h : column = name
  · rw [if_pos h, h, beq_self_eq_true]
    rfl
  · rw [if_neg h, beq_false_of_ne h]
    rfl

structure Table where
  columns : List Column
  rows : List Row := []
  deriving DecidableEq, Repr

def Table.names (t : Table) : List String := t.columns.map Column.name

def Database : Type := String → Option Table

/-! ## Constraints -/

def Value.Below (bound : ℤ) : Value → Prop
  | .integer value => value < bound
  | _ => False

instance (bound : ℤ) (value : Value) : Decidable (value.Below bound) := by
  unfold Value.Below
  split <;> infer_instance

section

variable (table : String) (rows : List Row) (row : Row) (column : Column)

def Column.checkNotNull : Except Error Unit :=
  if column.notNull = true ∧ row.get column.name = .null then
    .error (.integrityError s!"NOT NULL constraint failed: {table}.{column.name}")
  else .ok ()

def Column.checkAtLeast : Except Error Unit :=
  if ∃ bound ∈ column.atLeast, (row.get column.name).Below bound then
    .error (.integrityError s!"CHECK constraint failed: {column.name}")
  else .ok ()

def Column.checkUnique : Except Error Unit :=
  if (column.primaryKey = true ∨ column.unique = true) ∧ row.get column.name ≠ .null ∧
      ∃ other ∈ rows, other.get column.name = row.get column.name then
    .error (.integrityError s!"UNIQUE constraint failed: {table}.{column.name}")
  else .ok ()

end

/-- Add the row, if the constraints of all columns allow it. -/
def Table.add (name : String) (t : Table) (row : Row) : Except Error Table := do
  t.columns.forM (Column.checkNotNull name row)
  t.columns.forM (Column.checkAtLeast row)
  t.columns.forM (Column.checkUnique name t.rows row)
  return { t with rows := t.rows ++ [row] }

/-- The row with these values, and the defaults of the columns that are not named. -/
def Table.rowOf (t : Table) (values : List (String × Value)) : Row :=
  t.columns.map fun column => (column.name, (values.lookup column.name).getD column.default)

/-! ## Statements -/

inductive Statement where
  | createTable (table : String) (columns : List Column)
  | dropTable (table : String)
  | renameTable (table target : String)
  | addColumn (table : String) (column : Column)
  | insert (table : String) (values : List (String × Value))
  | insertSelect (table : String) (columns : List String) (source : String)
      (sourceColumns : List String)
  | update (table : String) (assigned key : String × Value)

/-- Statements that change rows run in a transaction. -/
def Statement.ChangesRows : Statement → Prop
  | .insert .. | .insertSelect .. | .update .. => True
  | _ => False

instance (statement : Statement) : Decidable statement.ChangesRows := by
  unfold Statement.ChangesRows
  split <;> infer_instance

/-- The one table that the statement changes. -/
def Statement.target : Statement → Option String
  | .createTable table _ | .dropTable table | .addColumn table _ | .insert table _
  | .insertSelect table .. | .update table .. => some table
  | .renameTable .. => none

/-- The table that the statement reads beside. -/
def Statement.source : Statement → Option String
  | .insertSelect _ _ source _ => some source
  | _ => none

namespace Database

def table (d : Database) (name : String) : Except Error Table :=
  match d name with
  | some t => .ok t
  | none => .error (.operationalError s!"no such table: {name}")

def set (d : Database) (name : String) (t : Option Table) : Database := Function.update d name t

def checkColumns (name : String) (t : Table) (columns : List String) : Except Error Unit :=
  columns.forM fun column =>
    if column ∈ t.names then .ok ()
    else .error (.operationalError s!"table {name} has no column named {column}")

/-- A number that is bound to a parameter has to fit into 64 bits. -/
def checkParameter : Value → Except Error Unit
  | .integer value =>
      if -9223372036854775808 ≤ value ∧ value < 9223372036854775808 then .ok ()
      else .error (.overflowError "Python int too large to convert to SQLite INTEGER")
  | _ => .ok ()

/-- The row of an update, if the update is for it. -/
def assign (assigned key : String × Value) (row : Row) : Row :=
  if key.2 ≠ .null ∧ row.get key.1 = key.2 then
    row.map fun (name, value) => (name, if name = assigned.1 then assigned.2 else value)
  else row

def run (d : Database) : Statement → Except Error Database
  | .createTable name columns =>
      if (d name).isSome then .error (.operationalError s!"table {name} already exists")
      else .ok (d.set name (some { columns := columns }))
  | .dropTable name => do
      let _ ← d.table name
      return d.set name none
  | .renameTable name target => do
      let t ← d.table name
      if (d target).isSome then
        throw (.operationalError s!"there is already another table or index with this name: {target}")
      return (d.set name none).set target (some t)
  | .addColumn name column => do
      let t ← d.table name
      if column.name ∈ t.names then
        throw (.operationalError s!"duplicate column name: {column.name}")
      if column.notNull = true ∧ column.default = .null then
        throw (.operationalError "Cannot add a NOT NULL column with default value NULL")
      return d.set name (some {
        columns := t.columns ++ [column]
        rows := t.rows.map fun row => row ++ [(column.name, column.default)] })
  | .insert name values => do
      let t ← d.table name
      checkColumns name t (values.map Prod.fst)
      (values.map Prod.snd).forM checkParameter
      return d.set name (some (← t.add name (t.rowOf values)))
  | .insertSelect name columns source sourceColumns => do
      let t ← d.table name
      let other ← d.table source
      checkColumns name t columns
      checkColumns source other sourceColumns
      let rows := other.rows.map fun row =>
        t.rowOf (columns.zip (sourceColumns.map (Row.get row)))
      return d.set name (some (← rows.foldlM (Table.add name) t))
  | .update name assigned key => do
      let t ← d.table name
      checkColumns name t [assigned.1, key.1]
      let rows := t.rows.map (assign assigned key)
      return d.set name (some (← rows.foldlM (Table.add name) { t with rows := [] }))

end Database

/-! ## Queries -/

/-- A condition on a row; nothing is equal to `NULL`, or different from it. -/
inductive Condition where
  | always
  | eq (column : String) (value : Value)
  | ne (column : String) (value : Value)

def Condition.Holds (row : Row) : Condition → Prop
  | .always => True
  | .eq column value => row.get column = value ∧ value ≠ .null
  | .ne column value => row.get column ≠ value ∧ row.get column ≠ .null ∧ value ≠ .null

instance (row : Row) (condition : Condition) : Decidable (condition.Holds row) := by
  unfold Condition.Holds
  split <;> infer_instance

theorem Condition.filter_always (rows : List Row) :
    rows.filter (fun row => Condition.always.Holds row) = rows :=
  List.filter_eq_self.mpr fun _ _ => decide_eq_true trivial

def Condition.columns : Condition → List String
  | .always => []
  | .eq column _ | .ne column _ => [column]

/-- The order of values: `NULL`, numbers, texts. -/
def Value.le : Value → Value → Bool
  | .null, _ => true
  | .integer _, .null => false
  | .integer a, .integer b => a ≤ b
  | .integer _, .text _ => true
  | .text a, .text b => ¬ b < a
  | .text _, _ => false

/-- `SELECT … WHERE … ORDER BY …` -/
def Database.select (d : Database) (name : String) (columns : List String) (condition : Condition)
    (orderBy : Option String) : Except Error (List (List Value)) := do
  let t ← d.table name
  (columns ++ condition.columns ++ orderBy.toList).forM fun column =>
    if column ∈ t.names then .ok () else .error (.operationalError s!"no such column: {column}")
  let found := t.rows.filter fun row => condition.Holds row
  let ordered := match orderBy with
    | none => found
    | some column => found.mergeSort fun a b => (a.get column).le (b.get column)
  return ordered.map fun row => columns.map row.get

/-- A value as it is written in a statement. -/
def Value.literal : Value → Value
  | .null => .null
  | .integer value => .text (toString value)
  | .text value => .text ("'" ++ value.replace "'" "''" ++ "'")

def Value.ofBool (value : Bool) : Value := .integer (if value then 1 else 0)

/-- Name, type, whether `NULL` is refused, default, primary key. -/
def Column.info (column : Column) : List Value :=
  [.text column.name, .text column.type, .ofBool column.notNull, column.default.literal,
    .ofBool column.primaryKey]

/-- `PRAGMA table_info` -/
def Database.tableInfo (d : Database) (name : String) : List (List Value) :=
  match d name with
  | none => []
  | some t => t.columns.map Column.info

/-! ## Connections -/

/-- A connection, with what is committed and with the transaction that is open on it. -/
structure Connection where
  committed : Database
  pending : Option Database := none

def Connection.current (c : Connection) : Database := c.pending.getD c.committed

/-- What a program that uses a connection raises: errors of the database, and its own. -/
inductive Raised (ε : Type) where
  | sql (error : Error)
  | program (error : ε)
  deriving DecidableEq, Repr

abbrev Session (ε α : Type) := Effect Connection (Raised ε) α

section

variable {ε α : Type}

def query (read : Database → Except Error α) : Session ε α :=
  Effect.read fun c => (read c.current).mapError .sql

/-- `BEGIN`, unless a transaction is open. -/
def Connection.begin (c : Connection) : Connection := { c with pending := some c.current }

/-- What a statement leaves: in the open transaction, or committed. -/
def Connection.put (c : Connection) (next : Database) : Connection :=
  match c.pending with
  | some _ => { c with pending := some next }
  | none => { committed := next }

theorem Connection.current_put (c : Connection) (next : Database) : (c.put next).current = next := by
  unfold put
  split
  · rfl
  · rfl

def execute (statement : Statement) : Session ε Unit := fun c =>
  let opened := if statement.ChangesRows then c.begin else c
  match opened.current.run statement with
  | .error e => (.error (.sql e), opened)
  | .ok next => (.ok (), opened.put next)

/-- A statement outside of transactions. -/
def autocommit (statement : Statement) : Session ε Unit :=
  Effect.change fun c => match c.current.run statement with
    | .error e => .error (.sql e)
    | .ok next => .ok { committed := next }

def commit : Session ε Unit := Effect.change fun c => .ok { committed := c.current }

/-- A script commits first, and runs each of its statements for itself. -/
def executeScript (statements : List Statement) : Session ε Unit := do
  commit
  statements.forM autocommit

/-- What is done on a new connection is committed when it ends, and rolled back when it
fails. -/
def transaction (body : Session ε α) : Effect Database (Raised ε) α := fun d =>
  match body { committed := d } with
  | (.ok a, c) => (.ok a, c.current)
  | (.error e, c) => (.error e, c.committed)

end

/-! ## What the constraints allow -/

section

variable {rows : List Row} {row : Row} {column : Column}

/-- The row meets the constraints of the column, beside these rows. -/
structure Column.Admits (rows : List Row) (row : Row) (column : Column) : Prop where
  notNull : column.notNull = true → row.get column.name ≠ .null
  atLeast : ∀ bound ∈ column.atLeast, ¬ (row.get column.name).Below bound
  unique : column.primaryKey = true ∨ column.unique = true → row.get column.name ≠ .null →
    ∀ other ∈ rows, other.get column.name ≠ row.get column.name

theorem Column.checkNotNull_eq_ok_iff {table : String} : column.checkNotNull table row = .ok () ↔
    (column.notNull = true → row.get column.name ≠ .null) := by
  unfold checkNotNull
  split
  · simp_all
  · simp_all

theorem Column.checkAtLeast_eq_ok_iff : column.checkAtLeast row = .ok () ↔
    ∀ bound ∈ column.atLeast, ¬ (row.get column.name).Below bound := by
  unfold checkAtLeast
  split
  · simp_all
  · simp_all

theorem Column.checkUnique_eq_ok_iff {table : String} :
    column.checkUnique table rows row = .ok () ↔
      (column.primaryKey = true ∨ column.unique = true → row.get column.name ≠ .null →
        ∀ other ∈ rows, other.get column.name ≠ row.get column.name) := by
  unfold checkUnique
  split
  · simp_all
  · simp_all

theorem Table.add_eq_ok_iff {name : String} {t next : Table} : t.add name row = .ok next ↔
    (∀ column ∈ t.columns, column.Admits t.rows row) ∧ next = { t with rows := t.rows ++ [row] } := by
  have hchecks : (∀ column ∈ t.columns, column.Admits t.rows row) ↔
      t.columns.forM (Column.checkNotNull name row) = .ok () ∧
      t.columns.forM (Column.checkAtLeast row) = .ok () ∧
      t.columns.forM (Column.checkUnique name t.rows row) = .ok () := by
    simp only [Except.forM_eq_ok_iff, Column.checkNotNull_eq_ok_iff, Column.checkAtLeast_eq_ok_iff,
      Column.checkUnique_eq_ok_iff]
    constructor
    · exact fun h => ⟨fun c hc => (h c hc).notNull, fun c hc => (h c hc).atLeast,
        fun c hc => (h c hc).unique⟩
    · exact fun h c hc => ⟨h.1 c hc, h.2.1 c hc, h.2.2 c hc⟩
  rw [hchecks, add, Except.bind_unit_eq_ok_iff, Except.bind_unit_eq_ok_iff,
    Except.bind_unit_eq_ok_iff, and_assoc, and_assoc]
  refine and_congr_right fun _ => and_congr_right fun _ => and_congr_right fun _ => ?_
  constructor
  · exact fun h => (Except.ok.inj h).symm
  · intro h
    rw [h]
    rfl

/-- Rows that are all admitted are added one after another. -/
theorem Table.foldlM_add {name : String} {rows : List Row} : ∀ {t : Table},
    (∀ earlier row later, rows = earlier ++ row :: later →
      ∀ column ∈ t.columns, column.Admits (t.rows ++ earlier) row) →
    rows.foldlM (Table.add name) t = .ok { t with rows := t.rows ++ rows } := by
  induction rows with
  | nil =>
      intro t _
      rw [List.append_nil]
      rfl
  | cons row rest ih =>
      intro t h
      have hfirst : ∀ column ∈ t.columns, column.Admits t.rows row := by
        have hrow := h [] row rest rfl
        rwa [List.append_nil] at hrow
      rw [List.foldlM_cons, Except.bind_of_eq_ok (add_eq_ok_iff.mpr ⟨hfirst, rfl⟩), ih ?_]
      · rw [List.append_assoc]
        rfl
      · intro earlier other later hrest
        have hother := h (row :: earlier) other later (by rw [hrest]; rfl)
        rwa [List.append_cons] at hother

end

/-! ## What statements do -/

namespace Database

variable {d : Database} {name : String} {t : Table}

@[simp] theorem set_self (d : Database) (name : String) (t : Option Table) :
    d.set name t name = t := Function.update_self ..

@[simp] theorem set_of_ne (d : Database) {name other : String} (t : Option Table)
    (h : other ≠ name) : d.set name t other = d other := Function.update_of_ne h ..

theorem set_set (d : Database) (name : String) (t u : Option Table) :
    (d.set name t).set name u = d.set name u := Function.update_idem ..

theorem set_comm (d : Database) {name other : String} (h : name ≠ other) (t u : Option Table) :
    (d.set name t).set other u = (d.set other u).set name t := Function.update_comm h ..

theorem set_eq_self {u : Option Table} (h : d name = u) : d.set name u = d :=
  Function.update_eq_self_iff.mpr h.symm

theorem table_of_eq_some (h : d name = some t) : d.table name = .ok t := by
  rw [table, h]

theorem checkColumns_of_subset {columns : List String} (h : ∀ column ∈ columns, column ∈ t.names) :
    checkColumns name t columns = .ok () := by
  rw [checkColumns, Except.forM_eq_ok_iff]
  intro column hcolumn
  rw [if_pos (h column hcolumn)]

theorem run_createTable (columns : List Column) (h : d name = none) :
    d.run (.createTable name columns) = .ok (d.set name (some { columns := columns })) := by
  rw [run, h]
  rfl

theorem run_dropTable (h : d name = some t) : d.run (.dropTable name) = .ok (d.set name none) := by
  rw [run, table_of_eq_some h]
  rfl

theorem run_renameTable {target : String} (h : d name = some t) (htarget : d target = none) :
    d.run (.renameTable name target) = .ok ((d.set name none).set target (some t)) := by
  rw [run, table_of_eq_some h, htarget]
  rfl

theorem run_addColumn {column : Column} (h : d name = some t) (hnew : column.name ∉ t.names)
    (hdefault : column.default ≠ .null) :
    d.run (.addColumn name column) = .ok (d.set name (some {
      columns := t.columns ++ [column]
      rows := t.rows.map fun row => row ++ [(column.name, column.default)] })) := by
  rw [run, table_of_eq_some h]
  simp [bind, Except.bind, pure, Except.pure, hnew, hdefault]

/-- An insertion succeeds if and only if its numbers fit and its row is admitted. -/
theorem run_insert_eq_ok_iff {values : List (String × Value)} {next : Database}
    (h : d name = some t) (hcolumns : ∀ value ∈ values, value.1 ∈ t.names) :
    d.run (.insert name values) = .ok next ↔
      (∀ value ∈ values, checkParameter value.2 = .ok ()) ∧
      (∀ column ∈ t.columns, column.Admits t.rows (t.rowOf values)) ∧
      next = d.set name (some { t with rows := t.rows ++ [t.rowOf values] }) := by
  have hnames : checkColumns name t (values.map Prod.fst) = .ok () :=
    checkColumns_of_subset (List.forall_mem_map.mpr hcolumns)
  rw [run, Except.bind_of_eq_ok (table_of_eq_some h), Except.bind_of_eq_ok hnames,
    Except.bind_unit_eq_ok_iff, Except.forM_eq_ok_iff, List.forall_mem_map]
  refine and_congr_right fun _ => ?_
  constructor
  · intro hadded
    obtain ⟨added, hadded, hnext⟩ := Except.bind_eq_ok_iff.mp hadded
    obtain ⟨hadmits, rfl⟩ := Table.add_eq_ok_iff.mp hadded
    exact ⟨hadmits, (Except.ok.inj hnext).symm⟩
  · intro ⟨hadmits, hnext⟩
    rw [Except.bind_of_eq_ok (Table.add_eq_ok_iff.mpr ⟨hadmits, rfl⟩), hnext]
    rfl

/-- A copy of rows that are admitted one after another. -/
theorem run_insertSelect {columns sourceColumns : List String} {source : String} {other : Table}
    (h : d name = some t) (hsource : d source = some other)
    (hcolumns : ∀ column ∈ columns, column ∈ t.names)
    (hsourceColumns : ∀ column ∈ sourceColumns, column ∈ other.names) {rows : List Row}
    (hrows : other.rows.map (fun row =>
      t.rowOf (columns.zip (sourceColumns.map (Row.get row)))) = rows)
    (hadmits : ∀ earlier row later, rows = earlier ++ row :: later →
      ∀ column ∈ t.columns, column.Admits (t.rows ++ earlier) row) :
    d.run (.insertSelect name columns source sourceColumns) =
      .ok (d.set name (some { t with rows := t.rows ++ rows })) := by
  subst hrows
  rw [run, Except.bind_of_eq_ok (table_of_eq_some h),
    Except.bind_of_eq_ok (table_of_eq_some hsource),
    Except.bind_of_eq_ok (checkColumns_of_subset hcolumns),
    Except.bind_of_eq_ok (checkColumns_of_subset hsourceColumns)]
  dsimp only
  rw [Except.bind_of_eq_ok (Table.foldlM_add hadmits)]
  rfl

theorem run_update {assigned key : String × Value} (h : d name = some t)
    (hassigned : assigned.1 ∈ t.names) (hkey : key.1 ∈ t.names) {rows : List Row}
    (hrows : t.rows.map (assign assigned key) = rows)
    (hadmits : ∀ earlier row later, rows = earlier ++ row :: later →
      ∀ column ∈ t.columns, column.Admits earlier row) :
    d.run (.update name assigned key) = .ok (d.set name (some { t with rows := rows })) := by
  subst hrows
  have hcolumns : checkColumns name t [assigned.1, key.1] = .ok () := by
    refine checkColumns_of_subset ?_
    simp [hassigned, hkey]
  rw [run, Except.bind_of_eq_ok (table_of_eq_some h), Except.bind_of_eq_ok hcolumns]
  dsimp only
  rw [Except.bind_of_eq_ok (Table.foldlM_add (t := { t with rows := [] }) hadmits)]
  rfl

variable (name) in
/-- A statement does the same wherever the tables that it is about are the same. -/
theorem run_of_same {statement : Statement} {d' next : Database}
    (htarget : statement.target = some name) (hsame : d name = d' name)
    (hsource : ∀ source ∈ statement.source, d source = d' source)
    (hrun : d'.run statement = .ok next) : d.run statement = .ok (d.set name (next name)) := by
  -- a statement reads its target, and an `INSERT .. SELECT` its source as well
  have htable : d.table name = d'.table name := by rw [table, table, hsame]
  cases statement with
  | renameTable => cases htarget
  | createTable table columns =>
      obtain rfl := Option.some.inj htarget
      simp only [run, hsame] at hrun ⊢
      split at hrun
      · cases hrun
      · rename_i hnone
        rw [if_neg hnone, ← Except.ok.inj hrun, set_self]
  | dropTable table =>
      obtain rfl := Option.some.inj htarget
      simp only [run, htable] at hrun ⊢
      obtain ⟨t, ht, hrest⟩ := Except.bind_eq_ok_iff.mp hrun
      rw [Except.bind_of_eq_ok ht, ← Except.ok.inj hrest, set_self]
      rfl
  | addColumn table column =>
      obtain rfl := Option.some.inj htarget
      simp only [run, htable] at hrun ⊢
      obtain ⟨t, ht, hrest⟩ := Except.bind_eq_ok_iff.mp hrun
      rw [Except.bind_of_eq_ok ht]
      split at hrest
      · split at hrest <;> cases hrest
      · rename_i hnew
        split at hrest
        · cases hrest
        · rename_i hdefault
          rw [if_neg hnew, if_neg hdefault, ← Except.ok.inj hrest, set_self]
          rfl
  | insert table values =>
      obtain rfl := Option.some.inj htarget
      simp only [run, htable] at hrun ⊢
      obtain ⟨t, ht, hrest⟩ := Except.bind_eq_ok_iff.mp hrun
      obtain ⟨hcolumns, hrest⟩ := Except.bind_unit_eq_ok_iff.mp hrest
      obtain ⟨hparameters, hrest⟩ := Except.bind_unit_eq_ok_iff.mp hrest
      obtain ⟨added, hadded, hrest⟩ := Except.bind_eq_ok_iff.mp hrest
      rw [Except.bind_of_eq_ok ht, Except.bind_of_eq_ok hcolumns, Except.bind_of_eq_ok hparameters,
        Except.bind_of_eq_ok hadded, ← Except.ok.inj hrest, set_self]
      rfl
  | insertSelect table columns source sourceColumns =>
      obtain rfl := Option.some.inj htarget
      -- the rows to be inserted are the same
      have hother : d.table source = d'.table source := by
        rw [Database.table, Database.table, hsource source rfl]
      simp only [run, htable, hother] at hrun ⊢
      obtain ⟨t, ht, hrest⟩ := Except.bind_eq_ok_iff.mp hrun
      obtain ⟨other, hread, hrest⟩ := Except.bind_eq_ok_iff.mp hrest
      obtain ⟨hcolumns, hrest⟩ := Except.bind_unit_eq_ok_iff.mp hrest
      obtain ⟨hsources, hrest⟩ := Except.bind_unit_eq_ok_iff.mp hrest
      obtain ⟨added, hadded, hrest⟩ := Except.bind_eq_ok_iff.mp hrest
      rw [Except.bind_of_eq_ok ht, Except.bind_of_eq_ok hread, Except.bind_of_eq_ok hcolumns,
        Except.bind_of_eq_ok hsources]
      refine (Except.bind_of_eq_ok hadded _).trans ?_
      rw [← Except.ok.inj hrest, set_self]
      rfl
  | update table assigned key =>
      obtain rfl := Option.some.inj htarget
      simp only [run, htable] at hrun ⊢
      obtain ⟨t, ht, hrest⟩ := Except.bind_eq_ok_iff.mp hrun
      obtain ⟨hcolumns, hrest⟩ := Except.bind_unit_eq_ok_iff.mp hrest
      obtain ⟨changed, hchanged, hrest⟩ := Except.bind_eq_ok_iff.mp hrest
      rw [Except.bind_of_eq_ok ht, Except.bind_of_eq_ok hcolumns]
      refine (Except.bind_of_eq_ok hchanged _).trans ?_
      rw [← Except.ok.inj hrest, set_self]
      rfl

/-- A statement leaves all tables but one as they are. -/
theorem next_eq_set {statement : Statement} {next : Database}
    (htarget : statement.target = some name) (hrun : d.run statement = .ok next) :
    next = d.set name (next name) :=
  Except.ok.inj (hrun.symm.trans (run_of_same name htarget rfl (fun _ _ => rfl) hrun))

/-- A query depends on its table alone. -/
theorem select_congr {d' : Database} (h : d name = d' name) (columns : List String)
    (condition : Condition) (orderBy : Option String) :
    d.select name columns condition orderBy = d'.select name columns condition orderBy := by
  rw [select, select, table, table, h]

/-- The rows that a query finds, in their order. -/
def ordered (orderBy : Option String) (rows : List Row) : List Row :=
  match orderBy with
  | none => rows
  | some column => rows.mergeSort fun a b => (a.get column).le (b.get column)

theorem select_eq_ok {columns : List String} {condition : Condition} {orderBy : Option String}
    (h : d name = some t)
    (hcolumns : ∀ column ∈ columns ++ condition.columns ++ orderBy.toList, column ∈ t.names) :
    d.select name columns condition orderBy = .ok ((ordered orderBy
      (t.rows.filter fun row => condition.Holds row)).map fun row => columns.map row.get) := by
  have hnames : (columns ++ condition.columns ++ orderBy.toList).forM (fun column =>
      if column ∈ t.names then (.ok () : Except Error Unit)
      else .error (.operationalError s!"no such column: {column}")) = .ok () := by
    rw [Except.forM_eq_ok_iff]
    intro column hcolumn
    rw [if_pos (hcolumns column hcolumn)]
  rw [select, Except.bind_of_eq_ok (table_of_eq_some h), Except.bind_of_eq_ok hnames]
  rfl

end Database

/-! ## What is done on a connection -/

section

variable {ε α β : Type} {x : Session ε α} {f : α → Session ε β} {d d' d'' : Database} {a : α}
  {b : β} {e : Raised ε}

/-- On this database the computation returns `a`, and leaves the connection as it is. -/
def Sees (x : Session ε α) (d : Database) (a : α) : Prop :=
  ∀ c : Connection, c.current = d → x c = (.ok a, c)

/-- On this database the computation fails, and leaves the connection as it is. -/
def Refuses (x : Session ε α) (d : Database) (e : Raised ε) : Prop :=
  ∀ c : Connection, c.current = d → x c = (.error e, c)

/-- From `d` the computation returns `a`, and what it sees from then on is `d'`. -/
def Does (x : Session ε α) (d : Database) (a : α) (d' : Database) : Prop :=
  ∀ c : Connection, c.current = d → ∃ next : Connection, x c = (.ok a, next) ∧ next.current = d'

theorem sees_pure (a : α) : Sees (pure a : Session ε α) d a := fun _ _ => rfl

theorem sees_query {read : Database → Except Error α} (h : read d = .ok a) :
    Sees (query read : Session ε α) d a := by
  intro c hc
  rw [query, Effect.read, hc, h]
  rfl

theorem Sees.bind (hx : Sees x d a) (hf : Sees (f a) d b) : Sees (x >>= f) d b := by
  intro c hc
  rw [Effect.bind_of_ok (hx c hc), hf c hc]

theorem refuses_fail (e : Raised ε) : Refuses (Effect.fail e : Session ε α) d e := fun _ _ => rfl

theorem Refuses.bind (hx : Refuses x d e) : Refuses (x >>= f) d e :=
  fun c hc => Effect.bind_of_error (hx c hc)

theorem Sees.bind_refuses (hx : Sees x d a) (hf : Refuses (f a) d e) : Refuses (x >>= f) d e := by
  intro c hc
  rw [Effect.bind_of_ok (hx c hc), hf c hc]

theorem Sees.does (h : Sees x d a) : Does x d a d := fun c hc => ⟨c, h c hc, hc⟩

theorem Does.bind (hx : Does x d a d') (hf : Does (f a) d' b d'') : Does (x >>= f) d b d'' := by
  intro c hc
  obtain ⟨next, hnext, hcurrent⟩ := hx c hc
  rw [Effect.bind_of_ok hnext]
  exact hf next hcurrent

theorem Sees.bind_does (hx : Sees x d a) (hf : Does (f a) d b d') : Does (x >>= f) d b d' :=
  hx.does.bind hf

theorem does_execute {statement : Statement} (h : d.run statement = .ok d') :
    Does (execute statement : Session ε Unit) d () d' := by
  intro c hc
  have hopened : (if statement.ChangesRows then c.begin else c).current = d := by
    split
    · exact hc
    · exact hc
  unfold execute
  dsimp only
  rw [hopened, h]
  exact ⟨_, rfl, Connection.current_put _ _⟩

theorem does_commit : Does (commit : Session ε Unit) d () d := fun _ hc => ⟨_, rfl, hc⟩

theorem does_autocommit {statement : Statement} (h : d.run statement = .ok d') :
    Does (autocommit statement : Session ε Unit) d () d' := by
  intro c hc
  refine ⟨{ committed := d' }, ?_, rfl⟩
  rw [autocommit, Effect.change, hc, h]

theorem does_forM_nil : Does (([] : List Statement).forM autocommit : Session ε Unit) d () d :=
  (sees_pure ()).does

theorem does_forM_cons {statement : Statement} {rest : List Statement}
    (h : d.run statement = .ok d')
    (hrest : Does (rest.forM autocommit : Session ε Unit) d' () d'') :
    Does ((statement :: rest).forM autocommit : Session ε Unit) d () d'' :=
  (does_autocommit h).bind hrest

theorem transaction_of_does (h : Does x d a d') : transaction x d = (.ok a, d') := by
  obtain ⟨next, hnext, hcurrent⟩ := h { committed := d } rfl
  rw [transaction, hnext, ← hcurrent]

theorem transaction_of_refuses (h : Refuses x d e) : transaction x d = (.error e, d) := by
  rw [transaction, h { committed := d } rfl]

theorem transaction_execute_of_error {statement : Statement} {error : Error}
    (h : d.run statement = .error error) :
    transaction (execute statement : Session ε Unit) d = (.error (.sql error), d) := by
  have hopened : (if statement.ChangesRows then Connection.begin { committed := d }
      else { committed := d }).current = d := by
    split
    · rfl
    · rfl
  unfold transaction execute
  dsimp only
  rw [hopened, h]
  dsimp only
  split
  · rfl
  · rfl

end

end Sql
