import ChangePilot.Library.Sql
import ChangePilot.Ports.CanonicalJson

/-!
# The sandbox database

The orders of a sandbox in either version of their schema, the migration from the first
version to the second, the rollback, and the ledger of both.  The rollback copies the
orders into a new table that takes the place of the old one.
-/

namespace ChangePilot

open Sql

/-! ## Models -/

inductive SchemaVersion where
  | v1 | v2
  deriving DecidableEq, Repr

def SchemaVersion.value : SchemaVersion → String
  | v1 => "v1"
  | v2 => "v2"

def SchemaVersion.ofValue? : String → Option SchemaVersion
  | "v1" => some v1
  | "v2" => some v2
  | _ => none

structure OrderRecord where
  orderId : String
  customer : String
  totalCents : ℕ
  priority : Option String := none
  deriving DecidableEq, Repr

structure MigrationResult where
  migrationId : String
  fromVersion : SchemaVersion
  toVersion : SchemaVersion
  databaseFingerprint : String
  alreadyApplied : Bool
  deriving DecidableEq, Repr

/-- What the sandbox raises beside the errors of the database. -/
inductive DatabaseError where
  | sandboxDatabaseError (message : String)
  | valueError (message : String)
  | typeError (message : String)
  | validationError (field message : String)
  deriving DecidableEq, Repr

namespace SQLiteSandboxDatabase

/-- Something that is done with the file of a sandbox database. -/
abbrev Action := Effect Sql.Database (Raised DatabaseError)

abbrev Work := Session DatabaseError

def fail {α : Type} (error : DatabaseError) : Work α := Effect.fail (.program error)

/-! ## Tables -/

def metadataColumns : List Column := [
  { name := "key", type := "TEXT", primaryKey := true },
  { name := "value", type := "TEXT", notNull := true }]

/-- The columns of the orders, as `initialize_v1` and `rollback_v2_to_v1` declare them. -/
def ordersColumns : List Column := [
  { name := "order_id", type := "TEXT", primaryKey := true },
  { name := "customer", type := "TEXT", notNull := true },
  { name := "total_cents", type := "INTEGER", notNull := true, atLeast := some 0 }]

def priorityColumn : Column :=
  { name := "priority", type := "TEXT", notNull := true, default := .text "standard" }

def ledgerColumns : List Column := [
  { name := "migration_id", type := "TEXT", primaryKey := true },
  { name := "from_version", type := "TEXT", notNull := true },
  { name := "to_version", type := "TEXT", notNull := true },
  { name := "idempotency_key", type := "TEXT", notNull := true, unique := true },
  { name := "database_fingerprint", type := "TEXT", notNull := true }]

def effectsColumns : List Column := [
  { name := "logical_idempotency_key", type := "TEXT", primaryKey := true },
  { name := "tool_name", type := "TEXT", notNull := true },
  { name := "output_json", type := "TEXT", notNull := true }]

def baselineOrders : List (String × String × ℤ) :=
  [("order-1001", "alice", 1299), ("order-1002", "bob", 2599)]

def migrationId : String := "orders-v1-to-v2"

def rollbackId : String := "orders-v2-to-v1"

def insertMetadata (key value : String) : Statement :=
  .insert "sandbox_metadata" [("key", .text key), ("value", .text value)]

def insertOrderV1 (orderId customer : String) (totalCents : ℤ) : Statement :=
  .insert "orders" [("order_id", .text orderId), ("customer", .text customer),
    ("total_cents", .integer totalCents)]

def insertOrderV2 (orderId customer : String) (totalCents : ℤ) (priority : String) : Statement :=
  .insert "orders" [("order_id", .text orderId), ("customer", .text customer),
    ("total_cents", .integer totalCents), ("priority", .text priority)]

def insertLedger (migrationId fromVersion toVersion idempotencyKey databaseFingerprint : String) :
    Statement :=
  .insert "migration_ledger" [("migration_id", .text migrationId),
    ("from_version", .text fromVersion), ("to_version", .text toVersion),
    ("idempotency_key", .text idempotencyKey), ("database_fingerprint", .text databaseFingerprint)]

def updateVersion (version : String) : Statement :=
  .update "sandbox_metadata" ("value", .text version) ("key", .text "schema_version")

def initializeV1 (sandboxId : String) : Action Unit := transaction do
  executeScript [
    .createTable "sandbox_metadata" metadataColumns,
    .createTable "orders" ordersColumns,
    .createTable "migration_ledger" ledgerColumns,
    .createTable "tool_effects" effectsColumns]
  execute (insertMetadata "sandbox_id" sandboxId)
  execute (insertMetadata "schema_version" "v1")
  baselineOrders.forM fun (orderId, customer, totalCents) =>
    execute (insertOrderV1 orderId customer totalCents)

/-! ## Reading -/

/-- `str(value)` -/
def str : Sql.Value → String
  | .null => "None"
  | .integer value => toString value
  | .text value => value

/-- `SchemaVersion(value)` -/
def schemaVersionOf (value : Sql.Value) : Work SchemaVersion :=
  match value with
  | .text text =>
      match SchemaVersion.ofValue? text with
      | some version => pure version
      | none => fail (.valueError s!"'{text}' is not a valid SchemaVersion")
  | _ => fail (.valueError s!"{str value} is not a valid SchemaVersion")

/-- `_schema_version_in` -/
def schemaVersionIn : Work SchemaVersion := do
  let rows ← query fun d =>
    d.select "sandbox_metadata" ["value"] (.eq "key" (.text "schema_version")) none
  match rows.head? with
  | none => fail (.sandboxDatabaseError "schema version metadata is missing")
  | some row => schemaVersionOf (row.getD 0 .null)

def schemaVersion : Action SchemaVersion := transaction schemaVersionIn

def orderColumns (version : SchemaVersion) : List String :=
  match version with
  | .v1 => ["order_id", "customer", "total_cents"]
  | .v2 => ["order_id", "customer", "total_cents", "priority"]

/-- The orders in the order of their ids. -/
def selectOrders (version : SchemaVersion) : Work (List (List Sql.Value)) :=
  query fun d => d.select "orders" (orderColumns version) .always (some "order_id")

/-- `int(value)`; a text in a column for integers is none, or it would have become one. -/
def int : Sql.Value → Except DatabaseError ℤ
  | .integer value => .ok value
  | .text value => .error (.valueError s!"invalid literal for int() with base 10: '{value}'")
  | .null => .error (.typeError "int() argument must be a string, not 'NoneType'")

def orderOf (version : SchemaVersion) (row : List Sql.Value) :
    Except DatabaseError OrderRecord := do
  let total ← int (row.getD 2 .null)
  if total < 0 then
    throw (.validationError "total_cents" "Input should be greater than or equal to 0")
  return {
    orderId := str (row.getD 0 .null)
    customer := str (row.getD 1 .null)
    totalCents := total.toNat
    priority := match version with
      | .v1 => none
      | .v2 => some (str (row.getD 3 .null)) }

def listOrders : Action (List OrderRecord) := do
  let version ← schemaVersion
  let rows ← transaction (selectOrders version)
  match rows.mapM (orderOf version) with
  | .ok orders => pure orders
  | .error error => Effect.fail (.program error)

def jsonValue : Sql.Value → Json PyScalar
  | .null => .scalar (.constant none)
  | .integer value => .scalar (.int value)
  | .text value => .str value

def columnPayload (row : List Sql.Value) : Json PyScalar :=
  .obj [("default", jsonValue (row.getD 3 .null)), ("name", jsonValue (row.getD 0 .null)),
    ("not_null", jsonValue (row.getD 2 .null)), ("primary_key", jsonValue (row.getD 4 .null)),
    ("type", jsonValue (row.getD 1 .null))]

/-- The digest of the version, the columns and the orders; no number in it is a float. -/
def fingerprintOf (runtime : Runtime) (version : SchemaVersion)
    (columns orders : List (List Sql.Value)) : String :=
  (runtime.sha256 (jsonText (fun _ => "") (.obj [
    ("columns", .arr (columns.map columnPayload)),
    ("orders", .arr (orders.map fun row => .arr (row.map jsonValue))),
    ("schema_version", .str version.value)]))).val

/-- `_fingerprint` -/
def fingerprintIn (runtime : Runtime) : Work String := do
  let version ← schemaVersionIn
  let columns ← query fun d => .ok (d.tableInfo "orders")
  let orders ← selectOrders version
  return fingerprintOf runtime version columns orders

def fingerprint (runtime : Runtime) : Action String := transaction (fingerprintIn runtime)

/-! ## Changing -/

/-- `order.priority or "standard"` -/
def priorityOf (order : OrderRecord) : String :=
  match order.priority with
  | none => "standard"
  | some priority => if priority = "" then "standard" else priority

def insertOrder (order : OrderRecord) : Action Unit := do
  let version ← schemaVersion
  transaction do
    match version with
    | .v1 => do
        if order.priority.isSome then
          fail (.sandboxDatabaseError "priority is unavailable in schema v1")
        execute (insertOrderV1 order.orderId order.customer order.totalCents)
    | .v2 => execute (insertOrderV2 order.orderId order.customer order.totalCents (priorityOf order))

/-- `_migration_by_key` -/
def migrationByKey (idempotencyKey : String) : Work (Option (List Sql.Value)) := do
  let rows ← query fun d => d.select "migration_ledger"
    ["migration_id", "from_version", "to_version", "database_fingerprint"]
    (.eq "idempotency_key" (.text idempotencyKey)) none
  return rows.head?

/-- What is answered when the key is in the ledger. -/
def appliedMigration (migrationId : String) (existing : List Sql.Value) : Work MigrationResult := do
  if existing.getD 0 .null ≠ .text migrationId then
    fail (.sandboxDatabaseError "idempotency key belongs to another migration")
  return {
    migrationId := str (existing.getD 0 .null)
    fromVersion := ← schemaVersionOf (existing.getD 1 .null)
    toVersion := ← schemaVersionOf (existing.getD 2 .null)
    databaseFingerprint := str (existing.getD 3 .null)
    alreadyApplied := true }

def migrateV1ToV2 (runtime : Runtime) (idempotencyKey expectedFingerprint : String) :
    Action MigrationResult := transaction do
  match ← migrationByKey idempotencyKey with
  | some existing => appliedMigration migrationId existing
  | none => do
      let current ← schemaVersionIn
      if current ≠ .v1 then
        fail (.sandboxDatabaseError s!"migration requires schema v1, found {current.value}")
      let actualFingerprint ← fingerprintIn runtime
      if actualFingerprint ≠ expectedFingerprint then
        fail (.sandboxDatabaseError "database fingerprint does not match migration precondition")
      execute (.addColumn "orders" priorityColumn)
      execute (updateVersion "v2")
      let finalFingerprint ← fingerprintIn runtime
      execute (insertLedger migrationId "v1" "v2" idempotencyKey finalFingerprint)
      return ⟨migrationId, .v1, .v2, finalFingerprint, false⟩

def rollbackV2ToV1 (runtime : Runtime) (idempotencyKey : String) : Action MigrationResult :=
  transaction do
    match ← migrationByKey idempotencyKey with
    | some existing => appliedMigration rollbackId existing
    | none => do
        let current ← schemaVersionIn
        if current ≠ .v2 then
          fail (.sandboxDatabaseError s!"rollback requires schema v2, found {current.value}")
        let nonstandard ← query fun d =>
          d.select "orders" [] (.ne "priority" (.text "standard")) none
        if 0 < nonstandard.length then
          fail (.sandboxDatabaseError "schema rollback would discard non-default priority data")
        executeScript [
          .createTable "orders_v1" ordersColumns,
          .insertSelect "orders_v1" ["order_id", "customer", "total_cents"]
            "orders" ["order_id", "customer", "total_cents"],
          .dropTable "orders",
          .renameTable "orders_v1" "orders",
          updateVersion "v1"]
        let finalFingerprint ← fingerprintIn runtime
        execute (insertLedger rollbackId "v2" "v1" idempotencyKey finalFingerprint)
        return ⟨rollbackId, .v2, .v1, finalFingerprint, false⟩

end SQLiteSandboxDatabase

end ChangePilot
