import ChangePilot.Sandbox.Database
import ChangePilot.System.Sample

/-!
# Migration and rollback keep the orders

A sandbox database is its contents: orders with distinct ids, all of them with a priority
or all without one, as its version says.  Every statement of the migration and of the
rollback takes the tables of some contents to those of others.

There is one lemma for each statement (`run_addPriority`, `run_copyOrders`, `run_insertLedger`
and the like), one for each script that is made of them, and one for each transaction
(`migrateV1ToV2_sandboxDatabase`, `rollbackV2ToV1_sandboxDatabase`).  What is read of a
database, orders and fingerprint, is read of its contents.
-/

namespace ChangePilot

open Sql

/-! ## The contents of a sandbox database -/

structure LedgerEntry where
  migrationId : String
  fromVersion : SchemaVersion
  toVersion : SchemaVersion
  idempotencyKey : String
  databaseFingerprint : String

def LedgerEntry.row (entry : LedgerEntry) : Row := [
  ("migration_id", .text entry.migrationId), ("from_version", .text entry.fromVersion.value),
  ("to_version", .text entry.toVersion.value), ("idempotency_key", .text entry.idempotencyKey),
  ("database_fingerprint", .text entry.databaseFingerprint)]

/-- A row of the orders, with the priority if there is one. -/
def OrderRecord.row (order : OrderRecord) : Row :=
  [("order_id", .text order.orderId), ("customer", .text order.customer),
    ("total_cents", .integer order.totalCents)] ++
    order.priority.toList.map fun priority => ("priority", .text priority)

/-- Orders in a version of the schema. -/
@[ext] structure Orders where
  version : SchemaVersion
  records : List OrderRecord
  ids_nodup : (records.map OrderRecord.orderId).Nodup
  priority_isSome : ∀ order ∈ records, order.priority.isSome = true ↔ version = .v2

/-- The orders with this priority, or without one. -/
def Orders.withPriority (orders : Orders) (priority : Option String) : Orders where
  version := if priority.isSome then .v2 else .v1
  records := orders.records.map fun order => { order with priority := priority }
  ids_nodup := by
    rw [List.map_map]
    exact orders.ids_nodup
  priority_isSome := by
    rw [List.forall_mem_map]
    intro order _
    cases priority with
    | none => simp
    | some priority => simp

namespace SQLiteSandboxDatabase

def metadataTable (sandboxId : String) (version : SchemaVersion) : Table where
  columns := metadataColumns
  rows := [[("key", .text "sandbox_id"), ("value", .text sandboxId)],
    [("key", .text "schema_version"), ("value", .text version.value)]]

def columnsIn (version : SchemaVersion) : List Column :=
  match version with
  | .v1 => ordersColumns
  | .v2 => ordersColumns ++ [priorityColumn]

def ordersTable (orders : Orders) : Table where
  columns := columnsIn orders.version
  rows := orders.records.map OrderRecord.row

def ledgerTable (ledger : List LedgerEntry) : Table where
  columns := ledgerColumns
  rows := ledger.map LedgerEntry.row

/-- The four tables. -/
def tables (metadata orders ledger effects : Table) : Sql.Database := fun name =>
  if name = "sandbox_metadata" then some metadata
  else if name = "orders" then some orders
  else if name = "migration_ledger" then some ledger
  else if name = "tool_effects" then some effects
  else none

section

variable {metadata orders ledger effects : Table}

@[simp] theorem tables_metadata :
    tables metadata orders ledger effects "sandbox_metadata" = some metadata := rfl

@[simp] theorem tables_orders :
    tables metadata orders ledger effects "orders" = some orders := rfl

@[simp] theorem tables_ledger :
    tables metadata orders ledger effects "migration_ledger" = some ledger := rfl

theorem tables_set_metadata (other : Table) :
    (tables metadata orders ledger effects).set "sandbox_metadata" (some other) =
      tables other orders ledger effects := by
  funext name
  by_cases h : name = "sandbox_metadata"
  · subst h
    rw [Database.set_self]
    rfl
  · rw [Database.set_of_ne _ _ h, tables, tables, if_neg h, if_neg h]

theorem tables_set_orders (other : Table) :
    (tables metadata orders ledger effects).set "orders" (some other) =
      tables metadata other ledger effects := by
  funext name
  by_cases h : name = "orders"
  · subst h
    rw [Database.set_self]
    rfl
  · rw [Database.set_of_ne _ _ h]
    simp only [tables, if_neg h]

theorem tables_set_ledger (other : Table) :
    (tables metadata orders ledger effects).set "migration_ledger" (some other) =
      tables metadata orders other effects := by
  funext name
  by_cases h : name = "migration_ledger"
  · subst h
    rw [Database.set_self]
    rfl
  · rw [Database.set_of_ne _ _ h]
    simp only [tables, if_neg h]

end

theorem names_metadataTable (sandboxId : String) (version : SchemaVersion) :
    (metadataTable sandboxId version).names = ["key", "value"] := rfl

theorem names_ledgerTable (entries : List LedgerEntry) : (ledgerTable entries).names =
    ["migration_id", "from_version", "to_version", "idempotency_key", "database_fingerprint"] := rfl

theorem names_ordersTable (orders : Orders) :
    (ordersTable orders).names = orderColumns orders.version := by
  unfold Table.names ordersTable
  cases orders.version with
  | v1 => rfl
  | v2 => rfl

/-! ## Reading -/

@[simp] theorem row_get_orderId (order : OrderRecord) :
    order.row.get "order_id" = .text order.orderId := rfl

@[simp] theorem row_get_customer (order : OrderRecord) :
    order.row.get "customer" = .text order.customer := rfl

@[simp] theorem row_get_totalCents (order : OrderRecord) :
    order.row.get "total_cents" = .integer order.totalCents := rfl

theorem row_get_priority (order : OrderRecord) :
    order.row.get "priority" = (order.priority.map Sql.Value.text).getD .null := by
  cases hpriority : order.priority with
  | none => simp [OrderRecord.row, hpriority]
  | some priority => simp [OrderRecord.row, hpriority]

/-- The values of the orders in the order of their ids. -/
def selected (orders : Orders) : List (List Sql.Value) :=
  (Database.ordered (some "order_id") (orders.records.map OrderRecord.row)).map fun row =>
    (orderColumns orders.version).map row.get

def ordersFingerprint (runtime : Runtime) (orders : Orders) : String :=
  fingerprintOf runtime orders.version ((columnsIn orders.version).map Column.info)
    (selected orders)

section

variable (sandboxId : String) (version : SchemaVersion) (orders : Orders)
  (metadata records ledger effects : Table)

theorem select_schemaVersion :
    (tables (metadataTable sandboxId version) records ledger effects).select
      "sandbox_metadata" ["value"] (.eq "key" (.text "schema_version")) none =
      .ok [[.text version.value]] := by
  rw [Database.select_eq_ok tables_metadata (by rw [names_metadataTable]; decide)]
  simp [metadataTable, Database.ordered, Condition.Holds]

theorem sees_schemaVersionIn : Sees schemaVersionIn
    (tables (metadataTable sandboxId version) records ledger effects) version := by
  refine (sees_query (select_schemaVersion ..)).bind ?_
  cases version with
  | v1 => exact sees_pure _
  | v2 => exact sees_pure _

theorem select_orders : (tables metadata (ordersTable orders) ledger effects).select "orders"
    (orderColumns orders.version) .always (some "order_id") = .ok (selected orders) := by
  rw [Database.select_eq_ok tables_orders ?_]
  · rw [Condition.filter_always]
    rfl
  · rw [names_ordersTable]
    cases orders.version with
    | v1 => decide
    | v2 => decide

theorem sees_selectOrders : Sees (selectOrders orders.version)
    (tables metadata (ordersTable orders) ledger effects) (selected orders) :=
  sees_query (select_orders ..)

/-- The entries under a key, as they are read. -/
theorem select_byKey (entries : List LedgerEntry) (key : String) :
    (tables metadata records (ledgerTable entries) effects).select "migration_ledger"
      ["migration_id", "from_version", "to_version", "database_fingerprint"]
      (.eq "idempotency_key" (.text key)) none =
    .ok ((entries.filter fun entry => entry.idempotencyKey = key).map fun entry =>
      [.text entry.migrationId, .text entry.fromVersion.value, .text entry.toVersion.value,
        .text entry.databaseFingerprint]) := by
  rw [Database.select_eq_ok tables_ledger (by simp [names_ledgerTable, Condition.columns])]
  have hfound : (ledgerTable entries).rows.filter
      (fun row => Condition.Holds row (.eq "idempotency_key" (.text key))) =
      (entries.filter fun entry => entry.idempotencyKey = key).map LedgerEntry.row := by
    rw [ledgerTable, List.filter_map]
    refine congrArg _ (List.filter_congr fun entry _ => ?_)
    simp [Condition.Holds, LedgerEntry.row]
  rw [hfound]
  simp [Database.ordered, LedgerEntry.row]

theorem sees_migrationByKey {entries : List LedgerEntry} {key : String}
    (h : ∀ entry ∈ entries, entry.idempotencyKey ≠ key) :
    Sees (migrationByKey key) (tables metadata records (ledgerTable entries) effects) none := by
  have hselect := select_byKey metadata records effects entries key
  rw [List.filter_eq_nil_iff.mpr fun entry hentry => by simp [h entry hentry]] at hselect
  exact (sees_query hselect).bind (sees_pure _)

theorem sees_fingerprintIn (runtime : Runtime) : Sees (fingerprintIn runtime)
    (tables (metadataTable sandboxId orders.version) (ordersTable orders) ledger effects)
    (ordersFingerprint runtime orders) := by
  refine (sees_schemaVersionIn _ _ _ _ _).bind ?_
  have hcolumns : Sees (query fun d => .ok (d.tableInfo "orders") : Work (List (List Sql.Value)))
      (tables (metadataTable sandboxId orders.version) (ordersTable orders) ledger effects)
      ((columnsIn orders.version).map Column.info) := sees_query rfl
  exact hcolumns.bind ((sees_selectOrders _ _ _ _).bind (sees_pure _))

end

/-! ## Changing -/

/-- The constraints on the orders ask for a new id. -/
theorem admits_order_iff {version : SchemaVersion} {records : List OrderRecord}
    {order : OrderRecord} (hpriority : order.priority.isSome = true ↔ version = .v2) :
    (∀ column ∈ columnsIn version, column.Admits (records.map OrderRecord.row) order.row) ↔
      ∀ other ∈ records, other.orderId ≠ order.orderId := by
  have hbase : (∀ column ∈ ordersColumns,
      column.Admits (records.map OrderRecord.row) order.row) ↔
      ∀ other ∈ records, other.orderId ≠ order.orderId := by
    simp only [ordersColumns, List.forall_mem_cons]
    constructor
    · intro h other hother heq
      refine h.1.unique (.inl rfl) (by simp) _ (List.mem_map_of_mem hother) ?_
      simp [heq]
    · intro h
      refine ⟨⟨by simp, by simp, ?_⟩, ⟨by simp, by simp, by simp⟩, ⟨by simp, ?_, by simp⟩,
        List.forall_mem_nil _⟩
      · intro _ _
        rw [List.forall_mem_map]
        intro other hother
        simp [h other hother]
      · simp [Sql.Value.Below]
  cases version with
  | v1 => exact hbase
  | v2 =>
      obtain ⟨priority, hsome⟩ := Option.isSome_iff_exists.mp (hpriority.mpr rfl)
      rw [columnsIn, List.forall_mem_append, hbase, and_iff_left_iff_imp]
      intro _ column hcolumn
      rw [List.mem_singleton.mp hcolumn]
      exact ⟨by simp [priorityColumn, row_get_priority, hsome], by simp [priorityColumn],
        by simp [priorityColumn]⟩

section

variable (sandboxId : String) (orders : Orders) (metadata records ledger effects : Table)

/-- Adding the column gives every order the standard priority. -/
theorem run_addPriority (hv1 : orders.version = .v1) :
    (tables metadata (ordersTable orders) ledger effects).run
      (.addColumn "orders" priorityColumn) =
    .ok (tables metadata (ordersTable (orders.withPriority (some "standard"))) ledger effects) := by
  have hnew : priorityColumn.name ∉ (ordersTable orders).names := by
    rw [names_ordersTable, hv1]
    decide
  rw [Database.run_addColumn tables_orders hnew (by decide), tables_set_orders]
  have hrows : (ordersTable orders).rows.map (fun row => row ++
      [(priorityColumn.name, priorityColumn.default)]) =
      (ordersTable (orders.withPriority (some "standard"))).rows := by
    simp only [ordersTable, Orders.withPriority, List.map_map]
    refine List.map_congr_left fun order horder => ?_
    have hnone : order.priority = none := by
      have hsome := orders.priority_isSome order horder
      rw [hv1] at hsome
      simpa using hsome
    simp [OrderRecord.row, hnone, priorityColumn]
  have hcolumns : (ordersTable orders).columns ++ [priorityColumn] =
      (ordersTable (orders.withPriority (some "standard"))).columns := by
    simp only [ordersTable, hv1]
    rfl
  rw [hrows, hcolumns]

theorem run_updateVersion (version next : SchemaVersion) :
    (tables (metadataTable sandboxId version) records ledger effects).run
      (updateVersion next.value) =
    .ok (tables (metadataTable sandboxId next) records ledger effects) := by
  have hrows : (metadataTable sandboxId version).rows.map (Database.assign
      ("value", .text next.value) ("key", .text "schema_version")) =
      (metadataTable sandboxId next).rows := by
    simp [metadataTable, Database.assign]
  rw [updateVersion, Database.run_update tables_metadata (by simp [names_metadataTable])
    (by simp [names_metadataTable]) hrows, tables_set_metadata]
  · rfl
  · -- two rows, under different keys
    intro earlier row later hsplit column hcolumn
    rcases earlier with _ | ⟨first, _ | ⟨second, more⟩⟩
    · obtain ⟨rfl, _⟩ := List.cons.inj hsplit
      rcases List.mem_pair.mp hcolumn with rfl | rfl
      · exact ⟨by simp, by simp, by simp⟩
      · exact ⟨by simp, by simp, by simp⟩
    · obtain ⟨rfl, hrest⟩ := List.cons.inj hsplit
      obtain ⟨rfl, _⟩ := List.cons.inj hrest
      rcases List.mem_pair.mp hcolumn with rfl | rfl
      · exact ⟨by simp, by simp, by simp⟩
      · exact ⟨by simp, by simp, by simp⟩
    · simp [metadataTable] at hsplit

theorem run_insertLedger {entries : List LedgerEntry} (entry : LedgerEntry)
    (hnew : ∀ other ∈ entries, other.migrationId ≠ entry.migrationId ∧
      other.idempotencyKey ≠ entry.idempotencyKey) :
    (tables metadata records (ledgerTable entries) effects).run (insertLedger entry.migrationId
      entry.fromVersion.value entry.toVersion.value entry.idempotencyKey
      entry.databaseFingerprint) =
    .ok (tables metadata records (ledgerTable (entries ++ [entry])) effects) := by
  rw [insertLedger, Database.run_insert_eq_ok_iff tables_ledger (by simp [names_ledgerTable])]
  have hrow : (ledgerTable entries).rowOf [("migration_id", .text entry.migrationId),
      ("from_version", .text entry.fromVersion.value), ("to_version", .text entry.toVersion.value),
      ("idempotency_key", .text entry.idempotencyKey),
      ("database_fingerprint", .text entry.databaseFingerprint)] = entry.row := rfl
  rw [hrow]
  refine ⟨by simp [Database.checkParameter], ?_, ?_⟩
  -- only the two unique columns look at the rows that are there
  · have hmembers : ∀ column ∈ ledgerColumns,
        column.Admits (entries.map LedgerEntry.row) entry.row := by
      simp only [ledgerColumns, List.forall_mem_cons]
      refine ⟨⟨by simp, by simp, ?_⟩, ⟨by simp [LedgerEntry.row], by simp, by simp⟩,
        ⟨by simp [LedgerEntry.row], by simp, by simp⟩,
        ⟨by simp [LedgerEntry.row], by simp, ?_⟩, ⟨by simp [LedgerEntry.row], by simp, by simp⟩,
        List.forall_mem_nil _⟩
      · intro _ _
        rw [List.forall_mem_map]
        intro other hother
        simp [LedgerEntry.row, (hnew other hother).1]
      · intro _ _
        rw [List.forall_mem_map]
        intro other hother
        simp [LedgerEntry.row, (hnew other hother).2]
    exact hmembers
  · rw [tables_set_ledger]
    simp [ledgerTable]

section

variable {metadata ledger effects}

theorem run_createCopy : (tables metadata records ledger effects).run
      (.createTable "orders_v1" ordersColumns) =
    .ok ((tables metadata records ledger effects).set "orders_v1"
      (some { columns := ordersColumns })) := Database.run_createTable _ rfl

/-- The orders are copied without their priorities. -/
theorem run_copyOrders : ((tables metadata (ordersTable orders) ledger effects).set "orders_v1"
      (some { columns := ordersColumns })).run
      (.insertSelect "orders_v1" ["order_id", "customer", "total_cents"]
        "orders" ["order_id", "customer", "total_cents"]) =
    .ok ((tables metadata (ordersTable orders) ledger effects).set "orders_v1"
      (some (ordersTable (orders.withPriority none)))) := by
  have horders : ((tables metadata (ordersTable orders) ledger effects).set "orders_v1"
      (some { columns := ordersColumns })) "orders" = some (ordersTable orders) :=
    Database.set_of_ne _ _ (by decide)
  have hrows : (ordersTable orders).rows.map (fun row =>
      ({ columns := ordersColumns } : Table).rowOf (["order_id", "customer", "total_cents"].zip
        (["order_id", "customer", "total_cents"].map row.get))) =
      (ordersTable (orders.withPriority none)).rows := by
    simp only [ordersTable, Orders.withPriority, List.map_map]
    exact List.map_congr_left fun order _ => rfl
  rw [Database.run_insertSelect (Database.set_self ..) horders (by decide) ?_ hrows ?_,
    Database.set_set]
  · rfl
  · rw [names_ordersTable]
    cases orders.version with
    | v1 => decide
    | v2 => decide
  · -- the ids of the copies are different
    intro earlier row later hsplit
    obtain ⟨before, rest, hrecords, rfl, hrest⟩ := List.map_eq_append_iff.mp hsplit
    obtain ⟨order, after, rfl, rfl, _⟩ := List.map_eq_cons_iff.mp hrest
    have hnodup := (orders.withPriority none).ids_nodup
    have hpriority := (orders.withPriority none).priority_isSome order
    rw [hrecords] at hnodup hpriority
    have hnew : ∀ other ∈ before, other.orderId ≠ order.orderId := by
      intro other hother
      rw [List.map_append, List.map_cons, List.nodup_append] at hnodup
      exact hnodup.2.2 _ (List.mem_map_of_mem hother) _ List.mem_cons_self
    exact (admits_order_iff (hpriority (List.mem_append_right _ List.mem_cons_self))).mpr hnew

theorem run_dropOrders (copied : Table) :
    ((tables metadata records ledger effects).set "orders_v1" (some copied)).run
      (.dropTable "orders") =
    .ok (((tables metadata records ledger effects).set "orders_v1" (some copied)).set
      "orders" none) :=
  Database.run_dropTable (t := records) (Database.set_of_ne _ _ (by decide))

/-- The copies take the place of the orders. -/
theorem run_renameCopy (copied : Table) :
    (((tables metadata records ledger effects).set "orders_v1" (some copied)).set
      "orders" none).run (.renameTable "orders_v1" "orders") =
    .ok (tables metadata copied ledger effects) := by
  have hcopied : (((tables metadata records ledger effects).set "orders_v1" (some copied)).set
      "orders" none) "orders_v1" = some copied := by
    rw [Database.set_of_ne _ _ (by decide), Database.set_self]
  have hself : (tables metadata records ledger effects).set "orders_v1" none =
      tables metadata records ledger effects := Database.set_eq_self rfl
  rw [Database.run_renameTable hcopied (Database.set_self ..), Database.set_comm _ (by decide),
    Database.set_set, Database.set_comm _ (by decide), Database.set_set, hself, tables_set_orders]

/-- The script of the rollback puts the copied orders in the place of the orders. -/
theorem does_rollbackScript (version : SchemaVersion) : Does (executeScript [
      .createTable "orders_v1" ordersColumns,
      .insertSelect "orders_v1" ["order_id", "customer", "total_cents"]
        "orders" ["order_id", "customer", "total_cents"],
      .dropTable "orders",
      .renameTable "orders_v1" "orders",
      updateVersion "v1"] : Work Unit)
    (tables (metadataTable sandboxId version) (ordersTable orders) ledger effects) ()
    (tables (metadataTable sandboxId .v1) (ordersTable (orders.withPriority none)) ledger
      effects) := by
  refine does_commit.bind ?_
  refine does_forM_cons (run_createCopy _) ?_
  refine does_forM_cons (run_copyOrders _) ?_
  refine does_forM_cons (run_dropOrders _ _) ?_
  refine does_forM_cons (run_renameCopy _ _) ?_
  exact does_forM_cons (run_updateVersion sandboxId _ _ _ version .v1) does_forM_nil

end

end

/-! ## The operations -/

/-- The database with these contents. -/
def sandboxDatabase (sandboxId : String) (orders : Orders) (entries : List LedgerEntry)
    (effects : Table) : Sql.Database :=
  tables (metadataTable sandboxId orders.version) (ordersTable orders) (ledgerTable entries) effects

/-- The record that an insertion makes of the order. -/
def stored (version : SchemaVersion) (order : OrderRecord) : OrderRecord :=
  { order with
    priority := match version with
      | .v1 => none
      | .v2 => some (priorityOf order) }

/-- Insert orders one after another; those that are refused are left out. -/
def insertOrders : List OrderRecord → Sql.Database → List OrderRecord × Sql.Database
  | [], d => ([], d)
  | order :: rest, d =>
      match insertOrder order d with
      | (.ok _, next) => ((order :: (insertOrders rest next).1), (insertOrders rest next).2)
      | (.error _, next) => insertOrders rest next

theorem orderOf_row {version : SchemaVersion} {order : OrderRecord}
    (hpriority : order.priority.isSome = true ↔ version = .v2) :
    orderOf version ((orderColumns version).map order.row.get) = .ok order := by
  have htotal : ¬ ((order.totalCents : ℤ) < 0) := by omega
  cases version with
  | v1 =>
      have hnone : order.priority = none := by simpa using hpriority
      simp [orderOf, orderColumns, int, htotal, bind, Except.bind, pure, Except.pure, str, ← hnone]
  | v2 =>
      obtain ⟨priority, hsome⟩ := Option.isSome_iff_exists.mp (hpriority.mpr rfl)
      have hrecord : (⟨order.orderId, order.customer, order.totalCents, some priority⟩ :
          OrderRecord) = order := by rw [← hsome]
      simp [orderOf, orderColumns, int, htotal, bind, Except.bind, pure, Except.pure, str,
        row_get_priority, hsome, hrecord]

section

variable (sandboxId : String) (orders : Orders) (entries : List LedgerEntry) (effects : Table)

theorem schemaVersion_sandboxDatabase :
    schemaVersion (sandboxDatabase sandboxId orders entries effects) =
      (.ok orders.version, sandboxDatabase sandboxId orders entries effects) :=
  transaction_of_does (sees_schemaVersionIn _ _ _ _ _).does

theorem fingerprint_sandboxDatabase (runtime : Runtime) :
    fingerprint runtime (sandboxDatabase sandboxId orders entries effects) =
      (.ok (ordersFingerprint runtime orders), sandboxDatabase sandboxId orders entries effects) :=
  transaction_of_does (sees_fingerprintIn _ _ _ _ _).does

/-- What is listed are the orders. -/
theorem listOrders_sandboxDatabase : ∃ found, found.Perm orders.records ∧
    listOrders (sandboxDatabase sandboxId orders entries effects) =
      (.ok found, sandboxDatabase sandboxId orders entries effects) := by
  let found := orders.records.mergeSort fun a b =>
    (a.row.get "order_id").le (b.row.get "order_id")
  have hperm : found.Perm orders.records := List.mergeSort_perm _ _
  have hsorted : found.map OrderRecord.row = Database.ordered (some "order_id")
      (orders.records.map OrderRecord.row) := List.map_mergeSort fun _ _ _ _ => rfl
  have hread : (selected orders).mapM (orderOf orders.version) = .ok found := by
    rw [selected, ← hsorted, List.map_map, List.mapM_map]
    have horders : ∀ order ∈ found, (orderOf orders.version ∘ ((fun row : Row =>
        (orderColumns orders.version).map row.get) ∘ OrderRecord.row)) order = .ok (id order) :=
      fun order horder => orderOf_row (orders.priority_isSome order (hperm.mem_iff.mp horder))
    exact (Except.mapM_eq_ok horders).trans (congrArg Except.ok (List.map_id _))
  have hrows : transaction (selectOrders orders.version)
      (sandboxDatabase sandboxId orders entries effects) =
      (.ok (selected orders), sandboxDatabase sandboxId orders entries effects) :=
    transaction_of_does (sees_selectOrders _ _ _ _).does
  refine ⟨found, hperm, ?_⟩
  refine (Effect.bind_of_ok (schemaVersion_sandboxDatabase ..)).trans ?_
  refine (Effect.bind_of_ok hrows).trans ?_
  rw [hread]
  rfl

/-- The statement that `insert_order` executes. -/
def insertStatement (version : SchemaVersion) (order : OrderRecord) : Statement :=
  match version with
  | .v1 => insertOrderV1 order.orderId order.customer order.totalCents
  | .v2 => insertOrderV2 order.orderId order.customer order.totalCents (priorityOf order)

theorem insertStatement_eq (version : SchemaVersion) (order : OrderRecord) :
    insertStatement version order = .insert "orders" (stored version order).row := by
  cases version with
  | v1 => rfl
  | v2 => rfl

theorem rowOf_stored (order : OrderRecord) :
    (ordersTable orders).rowOf (stored orders.version order).row =
      (stored orders.version order).row := by
  unfold ordersTable
  cases orders.version with
  | v1 => rfl
  | v2 => rfl

theorem mem_names_of_mem_stored (order : OrderRecord) :
    ∀ value ∈ (stored orders.version order).row, value.1 ∈ (ordersTable orders).names := by
  rw [names_ordersTable]
  cases orders.version with
  | v1 => simp [stored, OrderRecord.row, orderColumns]
  | v2 => simp [stored, OrderRecord.row, orderColumns]

theorem priority_stored_isSome_iff (version : SchemaVersion) (order : OrderRecord) :
    (stored version order).priority.isSome = true ↔ version = .v2 := by
  cases version with
  | v1 => simp [stored]
  | v2 => simp [stored]

/-- An order with a new id and values that fit is not refused. -/
theorem exists_run_insertStatement {order : OrderRecord}
    (hvalues : ∀ value ∈ (stored orders.version order).row,
      Database.checkParameter value.2 = .ok ())
    (hnew : ∀ other ∈ orders.records, other.orderId ≠ order.orderId) :
    ∃ next, (sandboxDatabase sandboxId orders entries effects).run
      (insertStatement orders.version order) = .ok next := by
  have hadmits := (admits_order_iff (priority_stored_isSome_iff orders.version order)).mpr hnew
  rw [← rowOf_stored] at hadmits
  rw [insertStatement_eq, sandboxDatabase]
  exact ⟨_, (Database.run_insert_eq_ok_iff tables_orders (mem_names_of_mem_stored orders order)).mpr
    ⟨hvalues, hadmits, rfl⟩⟩

/-- An insertion that succeeds adds the order. -/
theorem run_insertStatement {order : OrderRecord} {next : Sql.Database}
    (h : (sandboxDatabase sandboxId orders entries effects).run
      (insertStatement orders.version order) = .ok next) :
    ∃ added : Orders, added.version = orders.version ∧
      added.records = orders.records ++ [stored orders.version order] ∧
      next = sandboxDatabase sandboxId added entries effects := by
  have hpriority := priority_stored_isSome_iff orders.version order
  rw [insertStatement_eq, sandboxDatabase, Database.run_insert_eq_ok_iff tables_orders
    (mem_names_of_mem_stored orders order), rowOf_stored] at h
  obtain ⟨_, hadmits, rfl⟩ := h
  have hnew := (admits_order_iff hpriority).mp hadmits
  refine ⟨⟨orders.version, orders.records ++ [stored orders.version order], ?_, ?_⟩, rfl, rfl, ?_⟩
  · rw [List.map_append, List.nodup_append]
    refine ⟨orders.ids_nodup, List.nodup_singleton _, ?_⟩
    intro id hid other hother
    obtain ⟨record, hrecord, rfl⟩ := List.mem_map.mp hid
    rw [List.mem_singleton.mp hother]
    exact hnew record hrecord
  · rw [List.forall_mem_append, List.forall_mem_singleton]
    exact ⟨orders.priority_isSome, hpriority⟩
  · rw [tables_set_orders, sandboxDatabase]
    simp [ordersTable]

/-- An insertion adds the order, or is refused and changes nothing. -/
theorem insertOrder_sandboxDatabase (order : OrderRecord) :
    (∃ added : Orders, added.version = orders.version ∧
      added.records = orders.records ++ [stored orders.version order] ∧
      insertOrder order (sandboxDatabase sandboxId orders entries effects) =
        (.ok (), sandboxDatabase sandboxId added entries effects)) ∨
    ∃ error, insertOrder order (sandboxDatabase sandboxId orders entries effects) =
      (.error error, sandboxDatabase sandboxId orders entries effects) := by
  have hversion : insertOrder order (sandboxDatabase sandboxId orders entries effects) =
      transaction (match orders.version with
        | .v1 => do
            if order.priority.isSome then
              fail (.sandboxDatabaseError "priority is unavailable in schema v1")
            execute (insertOrderV1 order.orderId order.customer order.totalCents)
        | .v2 => execute (insertOrderV2 order.orderId order.customer order.totalCents
            (priorityOf order))) (sandboxDatabase sandboxId orders entries effects) :=
    Effect.bind_of_ok (schemaVersion_sandboxDatabase ..)
  -- a statement that fails is rolled back by the transaction
  have hexecuted : (∃ added : Orders, added.version = orders.version ∧
      added.records = orders.records ++ [stored orders.version order] ∧
      transaction (execute (insertStatement orders.version order) : Work Unit)
        (sandboxDatabase sandboxId orders entries effects) =
        (.ok (), sandboxDatabase sandboxId added entries effects)) ∨
      ∃ error, transaction (execute (insertStatement orders.version order) : Work Unit)
        (sandboxDatabase sandboxId orders entries effects) =
        (.error error, sandboxDatabase sandboxId orders entries effects) := by
    cases hrun : (sandboxDatabase sandboxId orders entries effects).run
        (insertStatement orders.version order) with
    | error error => exact .inr ⟨_, transaction_execute_of_error hrun⟩
    | ok next =>
        obtain ⟨added, hsame, hrecords, rfl⟩ := run_insertStatement _ _ _ _ hrun
        exact .inl ⟨added, hsame, hrecords, transaction_of_does (does_execute hrun)⟩
  rw [hversion]
  cases hv : orders.version with
  | v2 =>
      rw [hv] at hexecuted
      exact hexecuted
  -- at v1 a priority is refused before the statement
  | v1 =>
      rw [hv] at hexecuted
      dsimp only
      split
      · exact .inr ⟨_, transaction_of_refuses (refuses_fail _).bind⟩
      · exact hexecuted

end

/-- A new order is added if its values fit and the columns have its priority. -/
theorem insertOrder_of_new {sandboxId : String} {orders : Orders} {entries : List LedgerEntry}
    {effects : Table} {order : OrderRecord}
    (hpriority : orders.version = .v1 → order.priority = none)
    (hvalues : ∀ value ∈ (stored orders.version order).row,
      Database.checkParameter value.2 = .ok ())
    (hnew : ∀ other ∈ orders.records, other.orderId ≠ order.orderId) :
    ∃ added : Orders, added.version = orders.version ∧
      added.records = orders.records ++ [stored orders.version order] ∧
      insertOrder order (sandboxDatabase sandboxId orders entries effects) =
        (.ok (), sandboxDatabase sandboxId added entries effects) := by
  rcases insertOrder_sandboxDatabase sandboxId orders entries effects order with
    hadded | ⟨error, hrefused⟩
  · exact hadded
  · obtain ⟨next, hrun⟩ := exists_run_insertStatement sandboxId orders entries effects hvalues hnew
    have hinserted : insertOrder order (sandboxDatabase sandboxId orders entries effects) =
        (.ok (), next) := by
      have hexecuted : transaction (execute (insertStatement orders.version order) : Work Unit)
          (sandboxDatabase sandboxId orders entries effects) = (.ok (), next) :=
        transaction_of_does (does_execute hrun)
      refine (Effect.bind_of_ok (schemaVersion_sandboxDatabase ..)).trans ?_
      cases hv : orders.version with
      | v1 =>
          rw [hv] at hexecuted
          dsimp only
          rw [if_neg (by rw [hpriority hv]; decide)]
          exact hexecuted
      | v2 =>
          rw [hv] at hexecuted
          exact hexecuted
    rw [hinserted] at hrefused
    cases hrefused

/-- Insertions add the orders that are not refused. -/
theorem insertOrders_sandboxDatabase (sandboxId : String) (entries : List LedgerEntry)
    (effects : Table) : ∀ (inserted : List OrderRecord) (orders : Orders),
    ∃ after : Orders, after.version = orders.version ∧
      after.records = orders.records ++
        (insertOrders inserted (sandboxDatabase sandboxId orders entries effects)).1.map
          (stored orders.version) ∧
      (insertOrders inserted (sandboxDatabase sandboxId orders entries effects)).2 =
        sandboxDatabase sandboxId after entries effects := by
  intro inserted
  induction inserted with
  | nil => exact fun orders => ⟨orders, rfl, (List.append_nil _).symm, rfl⟩
  | cons order rest ih =>
      intro orders
      rcases insertOrder_sandboxDatabase sandboxId orders entries effects order with
        ⟨added, hsame, hrecords, hinsert⟩ | ⟨error, hinsert⟩
      · obtain ⟨after, hafter, hall, hlast⟩ := ih added
        rw [insertOrders, hinsert]
        refine ⟨after, hafter.trans hsame, ?_, hlast⟩
        rw [hall, hrecords, hsame, List.append_assoc]
        rfl
      · rw [insertOrders, hinsert]
        exact ih orders

/-- The orders of a new sandbox. -/
def baseline : Orders where
  version := .v1
  records := [⟨"order-1001", "alice", 1299, none⟩, ⟨"order-1002", "bob", 2599, none⟩]
  ids_nodup := by decide
  priority_isSome := by decide

/-- A new sandbox is in the first version, with an empty ledger. -/
theorem initializeV1_eq (sandboxId : String) : initializeV1 sandboxId (fun _ => none) =
    (.ok (), sandboxDatabase sandboxId baseline [] { columns := effectsColumns }) := by
  -- `executescript` commits first, and then creates one table after the other
  have hscript : Does (executeScript [
      .createTable "sandbox_metadata" metadataColumns, .createTable "orders" ordersColumns,
      .createTable "migration_ledger" ledgerColumns, .createTable "tool_effects" effectsColumns] :
      Work Unit) (fun _ => none) () (tables { columns := metadataColumns }
        { columns := ordersColumns } { columns := ledgerColumns } { columns := effectsColumns }) := by
    have htables : (((Database.set (fun _ => none) "sandbox_metadata"
        (some { columns := metadataColumns })).set "orders" (some { columns := ordersColumns })).set
        "migration_ledger" (some { columns := ledgerColumns })).set
        "tool_effects" (some { columns := effectsColumns }) =
        tables { columns := metadataColumns } { columns := ordersColumns }
          { columns := ledgerColumns } { columns := effectsColumns } := by
      funext name
      simp only [Database.set, Function.update_apply, tables]
      split_ifs <;> simp_all
    refine does_commit.bind ?_
    refine does_forM_cons (Database.run_createTable _ rfl) ?_
    refine does_forM_cons (Database.run_createTable _ rfl) ?_
    refine does_forM_cons (Database.run_createTable _ rfl) ?_
    refine does_forM_cons (Database.run_createTable _ rfl) ?_
    rw [htables]
    exact does_forM_nil
  have hsandboxId : ∀ orders ledger effects, (tables { columns := metadataColumns } orders ledger
      effects).run (insertMetadata "sandbox_id" sandboxId) = .ok (tables {
        columns := metadataColumns
        rows := [[("key", .text "sandbox_id"), ("value", .text sandboxId)]] } orders ledger
        effects) := fun _ _ _ => congrArg Except.ok (tables_set_metadata _)
  have hversion : ∀ orders ledger effects, (tables {
        columns := metadataColumns
        rows := [[("key", .text "sandbox_id"), ("value", .text sandboxId)]] } orders ledger
        effects).run (insertMetadata "schema_version" "v1") =
      .ok (tables (metadataTable sandboxId .v1) orders ledger effects) :=
    fun _ _ _ => congrArg Except.ok (tables_set_metadata _)
  have hfirst : ∀ metadata ledger effects, (tables metadata { columns := ordersColumns } ledger
      effects).run (insertOrderV1 "order-1001" "alice" 1299) = .ok (tables metadata {
        columns := ordersColumns
        rows := [OrderRecord.row ⟨"order-1001", "alice", 1299, none⟩] } ledger effects) :=
    fun _ _ _ => congrArg Except.ok (tables_set_orders _)
  have hsecond : ∀ metadata ledger effects, (tables metadata {
        columns := ordersColumns
        rows := [OrderRecord.row ⟨"order-1001", "alice", 1299, none⟩] } ledger effects).run
        (insertOrderV1 "order-1002" "bob" 2599) =
      .ok (tables metadata (ordersTable baseline) ledger effects) :=
    fun _ _ _ => congrArg Except.ok (tables_set_orders _)
  -- the rest is one transaction
  refine transaction_of_does (hscript.bind ?_)
  refine (does_execute (hsandboxId ..)).bind ?_
  refine (does_execute (hversion ..)).bind ?_
  refine (does_execute (hfirst ..)).bind ?_
  exact (does_execute (hsecond ..)).bind (sees_pure ()).does

section

variable (runtime : Runtime) (sandboxId key : String) (orders : Orders)
  (entries : List LedgerEntry) (effects : Table)

/-- What the migration records. -/
def migrationEntry : LedgerEntry where
  migrationId := migrationId
  fromVersion := .v1
  toVersion := .v2
  idempotencyKey := key
  databaseFingerprint := ordersFingerprint runtime (orders.withPriority (some "standard"))

/-- What the rollback records. -/
def rollbackEntry : LedgerEntry where
  migrationId := rollbackId
  fromVersion := .v2
  toVersion := .v1
  idempotencyKey := key
  databaseFingerprint := ordersFingerprint runtime (orders.withPriority none)

/-- The migration under the current fingerprint, when none is in the ledger. -/
theorem migrateV1ToV2_sandboxDatabase (hv1 : orders.version = .v1) :
    migrateV1ToV2 runtime key (ordersFingerprint runtime orders)
      (sandboxDatabase sandboxId orders [] effects) =
    (.ok ⟨migrationId, .v1, .v2,
        ordersFingerprint runtime (orders.withPriority (some "standard")), false⟩,
      sandboxDatabase sandboxId (orders.withPriority (some "standard"))
        [migrationEntry runtime key orders] effects) := by
  refine transaction_of_does ?_
  refine (sees_migrationByKey _ _ _ (List.forall_mem_nil _)).bind_does ?_
  refine (sees_schemaVersionIn _ _ _ _ _).bind_does ?_
  dsimp only
  rw [if_neg (not_not.mpr hv1)]
  refine (sees_fingerprintIn _ _ _ _ _).bind_does ?_
  rw [if_neg (not_not.mpr rfl)]
  refine (does_execute (run_addPriority _ _ _ _ hv1)).bind ?_
  rw [hv1]
  refine (does_execute (run_updateVersion sandboxId _ _ _ .v1 .v2)).bind ?_
  refine (sees_fingerprintIn sandboxId (orders.withPriority (some "standard")) _ _ _).bind_does ?_
  exact (does_execute (run_insertLedger _ _ _ (migrationEntry runtime key orders)
    (List.forall_mem_nil _))).bind (sees_pure _).does

/-- Only standard priorities are lost without a trace. -/
def AllStandard (orders : Orders) : Prop :=
  ∀ order ∈ orders.records, order.priority = some "standard"

theorem select_nonstandard (metadata ledger : Table) (hv2 : orders.version = .v2) :
    ∃ nonstandard, (tables metadata (ordersTable orders) ledger effects).select "orders" []
        (.ne "priority" (.text "standard")) none = .ok nonstandard ∧
      (0 < nonstandard.length ↔ ¬ AllStandard orders) := by
  have hnames : ∀ column ∈ [] ++ (Condition.ne "priority" (.text "standard")).columns ++
      (none : Option String).toList, column ∈ (ordersTable orders).names := by
    rw [names_ordersTable, hv2]
    decide
  refine ⟨_, Database.select_eq_ok tables_orders hnames, ?_⟩
  rw [List.length_map, Database.ordered, List.length_pos_iff, ne_eq, List.filter_eq_nil_iff,
    not_iff_not, ordersTable, List.forall_mem_map, AllStandard]
  refine forall₂_congr fun order horder => ?_
  obtain ⟨priority, hsome⟩ :=
    Option.isSome_iff_exists.mp ((orders.priority_isSome order horder).mpr hv2)
  simp [Condition.Holds, row_get_priority, hsome]

theorem sees_nonstandard (metadata ledger : Table) (hv2 : orders.version = .v2) :
    ∃ nonstandard, Sees (query fun d =>
        d.select "orders" [] (.ne "priority" (.text "standard")) none : Work (List (List Sql.Value)))
      (tables metadata (ordersTable orders) ledger effects) nonstandard ∧
      (0 < nonstandard.length ↔ ¬ AllStandard orders) := by
  obtain ⟨nonstandard, hselect, hlost⟩ := select_nonstandard orders effects metadata ledger hv2
  exact ⟨nonstandard, sees_query hselect, hlost⟩

/-- The rollback under a new key, when the ledger holds a migration alone. -/
theorem rollbackV2ToV1_sandboxDatabase (migration : LedgerEntry) (hv2 : orders.version = .v2)
    (hkey : migration.idempotencyKey ≠ key) (hmigration : migration.migrationId = migrationId) :
    (AllStandard orders → rollbackV2ToV1 runtime key
        (sandboxDatabase sandboxId orders [migration] effects) =
      (.ok ⟨rollbackId, .v2, .v1, ordersFingerprint runtime (orders.withPriority none), false⟩,
        sandboxDatabase sandboxId (orders.withPriority none)
          [migration, rollbackEntry runtime key orders] effects)) ∧
    (¬ AllStandard orders → ∃ error, rollbackV2ToV1 runtime key
        (sandboxDatabase sandboxId orders [migration] effects) =
      (.error error, sandboxDatabase sandboxId orders [migration] effects)) := by
  have hnone : ∀ entry ∈ [migration], entry.idempotencyKey ≠ key := List.forall_mem_singleton.mpr hkey
  obtain ⟨nonstandard, hsees, hlost⟩ := sees_nonstandard orders effects
    (metadataTable sandboxId orders.version) (ledgerTable [migration]) hv2
  constructor
  -- only the standard priorities are given up
  · intro hall
    refine transaction_of_does ?_
    refine (sees_migrationByKey _ _ _ hnone).bind_does ?_
    refine (sees_schemaVersionIn _ _ _ _ _).bind_does ?_
    dsimp only
    rw [if_neg (not_not.mpr hv2)]
    refine hsees.bind_does ?_
    rw [if_neg (fun h => hlost.mp h hall)]
    refine (does_rollbackScript sandboxId orders _).bind ?_
    refine (sees_fingerprintIn sandboxId (orders.withPriority none) _ _ _).bind_does ?_
    refine (does_execute (run_insertLedger _ _ _ (rollbackEntry runtime key orders) ?_)).bind
      (sees_pure _).does
    -- the ledger has one entry, the migration's
    refine List.forall_mem_singleton.mpr ⟨?_, hkey⟩
    rw [hmigration]
    show migrationId ≠ rollbackId
    decide
  · intro hall
    refine ⟨.program (.sandboxDatabaseError
      "schema rollback would discard non-default priority data"), transaction_of_refuses ?_⟩
    refine (sees_migrationByKey _ _ _ hnone).bind_refuses ?_
    refine (sees_schemaVersionIn _ _ _ _ _).bind_refuses ?_
    dsimp only
    rw [if_neg (not_not.mpr hv2)]
    refine hsees.bind_refuses ?_
    rw [if_pos (hlost.mpr hall)]
    exact (refuses_fail _).bind

end

/-- Orders without priorities are as they were before they got one. -/
theorem map_withoutPriority {orders : Orders} (hv1 : orders.version = .v1) :
    ((orders.withPriority (some "standard")).records.map fun order =>
      { order with priority := none }) = orders.records := by
  rw [Orders.withPriority, List.map_map]
  have hsame : ∀ order ∈ orders.records, ((fun order : OrderRecord =>
      { order with priority := none }) ∘ fun order => { order with priority := some "standard" })
        order = id order := by
    intro order horder
    have hnone : order.priority = none := by
      have hsome := orders.priority_isSome order horder
      rw [hv1] at hsome
      simpa using hsome
    show (⟨order.orderId, order.customer, order.totalCents, none⟩ : OrderRecord) = order
    rw [← hnone]
  rw [List.map_congr_left hsame, List.map_id]

end SQLiteSandboxDatabase

open SQLiteSandboxDatabase in
/-- A migration keeps the orders of a database in the first version, and a rollback under a
new key keeps all orders that are there by then, or is refused and changes nothing if one
of them has another priority than the standard one.  If none was inserted in between, it
restores all tables but the ledger. -/
theorem migration_and_rollback_keep_orders (runtime : Runtime) (sandboxId key : String)
    (orders : Orders) (hv1 : orders.version = .v1) (effects : Table) :
    ∃ current final migrated,
      fingerprint runtime (sandboxDatabase sandboxId orders [] effects) =
        (.ok current, sandboxDatabase sandboxId orders [] effects) ∧
      migrateV1ToV2 runtime key current (sandboxDatabase sandboxId orders [] effects) =
        (.ok ⟨migrationId, .v1, .v2, final, false⟩, migrated) ∧
      (∃ found, listOrders migrated = (.ok found, migrated) ∧ found.Perm
        (orders.records.map fun order => { order with priority := some "standard" })) ∧
      ∀ inserted kept later, insertOrders inserted migrated = (kept, later) →
        ∃ found, listOrders later = (.ok found, later) ∧ found.Perm
          (orders.records.map (fun order => { order with priority := some "standard" }) ++
            kept.map (stored .v2)) ∧
          ∀ rollbackKey, rollbackKey ≠ key →
            ((∃ result restored, rollbackV2ToV1 runtime rollbackKey later =
              (.ok result, restored)) ↔ ∀ order ∈ found, order.priority = some "standard") ∧
            (∀ error left, rollbackV2ToV1 runtime rollbackKey later = (.error error, left) →
              left = later) ∧
            ∀ result restored, rollbackV2ToV1 runtime rollbackKey later = (.ok result, restored) →
              (∃ found, listOrders restored = (.ok found, restored) ∧
                found.Perm (orders.records ++ kept.map (stored .v1))) ∧
              (kept = [] →
                (∀ name, name ≠ "migration_ledger" →
                  restored name = sandboxDatabase sandboxId orders [] effects name) ∧
                fingerprint runtime restored = (.ok current, restored)) := by
  refine ⟨_, _, _, fingerprint_sandboxDatabase .., migrateV1ToV2_sandboxDatabase runtime sandboxId
    key orders effects hv1, ?_, ?_⟩
  · obtain ⟨found, hperm, hlist⟩ := listOrders_sandboxDatabase sandboxId
      (orders.withPriority (some "standard")) [migrationEntry runtime key orders] effects
    exact ⟨found, hlist, hperm⟩
  · intro inserted kept later hinserted
    obtain ⟨after, hversion, hrecords, hlater⟩ := insertOrders_sandboxDatabase sandboxId
      [migrationEntry runtime key orders] effects inserted (orders.withPriority (some "standard"))
    rw [hinserted] at hrecords hlater
    obtain rfl := hlater
    obtain ⟨found, hperm, hlist⟩ := listOrders_sandboxDatabase sandboxId after
      [migrationEntry runtime key orders] effects
    refine ⟨found, hlist, hrecords ▸ hperm, fun rollbackKey hkey => ?_⟩
    obtain ⟨hsafe, hunsafe⟩ := rollbackV2ToV1_sandboxDatabase runtime sandboxId rollbackKey after
      effects (migrationEntry runtime key orders) hversion (Ne.symm hkey) rfl
    -- the orders that are listed are the stored ones, in some order
    have hall : AllStandard after ↔ ∀ order ∈ found, order.priority = some "standard" :=
      forall_congr' fun order => imp_congr_left hperm.mem_iff.symm
    -- the copies lose the priority again
    have hkept : (after.withPriority none).records = orders.records ++ kept.map (stored .v1) := by
      show (after.records.map fun order => { order with priority := none }) = _
      rw [hrecords, List.map_append, map_withoutPriority hv1, List.map_map]
      rfl
    by_cases hstandard : AllStandard after
    · have hrollback := hsafe hstandard
      refine ⟨⟨fun _ => hall.mp hstandard, fun _ => ⟨_, _, hrollback⟩⟩, ?_, ?_⟩
      · intro error left hfailed
        rw [hrollback] at hfailed
        cases hfailed
      · intro result restored hrestored
        rw [hrollback] at hrestored
        cases hrestored
        refine ⟨?_, ?_⟩
        · obtain ⟨restored, hsame, hlistRestored⟩ := listOrders_sandboxDatabase sandboxId
            (after.withPriority none) [migrationEntry runtime key orders,
              rollbackEntry runtime rollbackKey after] effects
          exact ⟨restored, hlistRestored, hkept ▸ hsame⟩
        · intro hnone
          have hbefore : after.withPriority none = orders := by
            refine Orders.ext hv1.symm ?_
            rw [hkept, hnone]
            exact List.append_nil _
          rw [hbefore]
          refine ⟨fun name hname => ?_, fingerprint_sandboxDatabase ..⟩
          simp only [sandboxDatabase, tables, if_neg hname]
    · obtain ⟨failure, hrollback⟩ := hunsafe hstandard
      refine ⟨⟨?_, fun hfound => absurd (hall.mpr hfound) hstandard⟩, ?_, ?_⟩
      · intro ⟨result, restored, hrestored⟩
        rw [hrollback] at hrestored
        cases hrestored
      · intro error left hfailed
        rw [hrollback] at hfailed
        cases hfailed
        rfl
      · intro result restored hrestored
        rw [hrollback] at hrestored
        cases hrestored

namespace Sample

open SQLiteSandboxDatabase

/-- An order that is taken between a migration and a rollback. -/
def laterOrder : OrderRecord := ⟨"order-2001", "carol", 999, none⟩

/-- A new database. -/
def baselineDatabase : Sql.Database :=
  sandboxDatabase "sandbox" baseline [] { columns := effectsColumns }

/-- The order is not refused by a migrated database. -/
theorem insertOrder_laterOrder (entries : List LedgerEntry) (effects : Table) :
    ∃ added : Orders, added.version = .v2 ∧
      added.records = (baseline.withPriority (some "standard")).records ++
        [stored .v2 laterOrder] ∧
      insertOrder laterOrder (sandboxDatabase "sandbox" (baseline.withPriority (some "standard"))
        entries effects) = (.ok (), sandboxDatabase "sandbox" added entries effects) :=
  @insertOrder_of_new "sandbox" (baseline.withPriority (some "standard")) entries effects laterOrder
    SchemaVersion.noConfusion (by decide) (by decide)

end Sample

open SQLiteSandboxDatabase Sample in
theorem migration_and_rollback_keep_orders_baseline : ∃ current result migrated later back restored,
    migrateV1ToV2 canonicalRuntime "key" current baselineDatabase = (.ok result, migrated) ∧
      insertOrders [laterOrder] migrated = ([laterOrder], later) ∧
      rollbackV2ToV1 canonicalRuntime "back" later = (.ok back, restored) ∧
      ∃ found, listOrders restored = (.ok found, restored) ∧
        found.Perm (baseline.records ++ [laterOrder]) := by
  obtain ⟨current, final, migrated, hcurrent, hmigrated, _, hrest⟩ :=
    migration_and_rollback_keep_orders canonicalRuntime "sandbox" "key" baseline rfl
      { columns := effectsColumns }
  obtain ⟨later, hinserted⟩ : ∃ later, insertOrders [laterOrder] migrated = ([laterOrder], later) := by
    rw [fingerprint_sandboxDatabase] at hcurrent
    obtain rfl := Except.ok.inj (Prod.mk.inj hcurrent).1
    rw [migrateV1ToV2_sandboxDatabase _ _ _ _ _ rfl] at hmigrated
    obtain rfl := (Prod.mk.inj hmigrated).2
    obtain ⟨added, _, _, hinsert⟩ := insertOrder_laterOrder
      [migrationEntry canonicalRuntime "key" baseline] { columns := effectsColumns }
    exact ⟨_, by rw [insertOrders, hinsert]; rfl⟩
  obtain ⟨found, _, hfound, hrollback⟩ := hrest _ _ _ hinserted
  obtain ⟨hiff, _, hkept⟩ := hrollback "back" (by decide)
  -- all of the orders have the standard priority
  have hstandard : ∀ order ∈ found, order.priority = some "standard" :=
    fun order horder => (by decide : ∀ order ∈ baseline.records.map (fun order =>
      { order with priority := some "standard" }) ++ [laterOrder].map (stored .v2),
      order.priority = some "standard") order (hfound.mem_iff.mp horder)
  obtain ⟨back, restored, hback⟩ := hiff.mpr hstandard
  exact ⟨current, _, migrated, later, back, restored, hmigrated, hinserted, hback,
    (hkept back restored hback).1⟩

end ChangePilot
