import ChangePilot.Library.SqlScripts
import ChangePilot.Sandbox.Database

/-!
# The migration and the rollback as scripts

The same operations as in the sandbox database, request by request.  Their sessions are
the migration and the rollback; here they may be interrupted as well.
-/

namespace ChangePilot

open Sql

namespace SQLiteSandboxDatabase

abbrev Requests := Script DatabaseError

namespace Scripts

open Script

/-! ## Reading -/

def schemaVersionOf (value : Sql.Value) : Requests SchemaVersion :=
  match value with
  | .text text =>
      match SchemaVersion.ofValue? text with
      | some version => pure version
      | none => reject (.valueError s!"'{text}' is not a valid SchemaVersion")
  | _ => reject (.valueError s!"{str value} is not a valid SchemaVersion")

/-- `_schema_version_in` -/
def schemaVersionIn : Requests SchemaVersion := do
  let rows ← ask (.select "sandbox_metadata" ["value"] (.eq "key" (.text "schema_version")) none)
  match rows.head? with
  | none => reject (.sandboxDatabaseError "schema version metadata is missing")
  | some row => schemaVersionOf (row.getD 0 .null)

def selectOrders (version : SchemaVersion) : Requests (List (List Sql.Value)) :=
  ask (.select "orders" (orderColumns version) .always (some "order_id"))

/-- `_fingerprint` -/
def fingerprintIn (runtime : Runtime) : Requests String := do
  let version ← schemaVersionIn
  let columns ← ask (.tableInfo "orders")
  let orders ← selectOrders version
  return fingerprintOf runtime version columns orders

/-- `_migration_by_key` -/
def migrationByKey (idempotencyKey : String) : Requests (Option (List Sql.Value)) := do
  let rows ← ask (.select "migration_ledger"
    ["migration_id", "from_version", "to_version", "database_fingerprint"]
    (.eq "idempotency_key" (.text idempotencyKey)) none)
  return rows.head?

/-! ## Changing -/

def appliedMigration (migrationId : String) (existing : List Sql.Value) :
    Requests MigrationResult := do
  if existing.getD 0 .null ≠ .text migrationId then
    reject (.sandboxDatabaseError "idempotency key belongs to another migration")
  return {
    migrationId := str (existing.getD 0 .null)
    fromVersion := ← schemaVersionOf (existing.getD 1 .null)
    toVersion := ← schemaVersionOf (existing.getD 2 .null)
    databaseFingerprint := str (existing.getD 3 .null)
    alreadyApplied := true }

/-- What `migrate_v1_to_v2` does on its connection. -/
def migrateV1ToV2 (runtime : Runtime) (idempotencyKey expectedFingerprint : String) :
    Requests MigrationResult := do
  match ← migrationByKey idempotencyKey with
  | some existing => appliedMigration migrationId existing
  | none => do
      let current ← schemaVersionIn
      if current ≠ .v1 then
        reject (.sandboxDatabaseError s!"migration requires schema v1, found {current.value}")
      let actualFingerprint ← fingerprintIn runtime
      if actualFingerprint ≠ expectedFingerprint then
        reject (.sandboxDatabaseError "database fingerprint does not match migration precondition")
      ask (.execute (.addColumn "orders" priorityColumn))
      ask (.execute (updateVersion "v2"))
      let finalFingerprint ← fingerprintIn runtime
      ask (.execute (insertLedger migrationId "v1" "v2" idempotencyKey finalFingerprint))
      return ⟨migrationId, .v1, .v2, finalFingerprint, false⟩

/-- What `rollback_v2_to_v1` does on its connection. -/
def rollbackV2ToV1 (runtime : Runtime) (idempotencyKey : String) : Requests MigrationResult := do
  match ← migrationByKey idempotencyKey with
  | some existing => appliedMigration rollbackId existing
  | none => do
      let current ← schemaVersionIn
      if current ≠ .v2 then
        reject (.sandboxDatabaseError s!"rollback requires schema v2, found {current.value}")
      let nonstandard ← ask (.select "orders" [] (.ne "priority" (.text "standard")) none)
      if 0 < nonstandard.length then
        reject (.sandboxDatabaseError "schema rollback would discard non-default priority data")
      executeScript [
        .createTable "orders_v1" ordersColumns,
        .insertSelect "orders_v1" ["order_id", "customer", "total_cents"]
          "orders" ["order_id", "customer", "total_cents"],
        .dropTable "orders",
        .renameTable "orders_v1" "orders",
        updateVersion "v1"]
      let finalFingerprint ← fingerprintIn runtime
      ask (.execute (insertLedger rollbackId "v2" "v1" idempotencyKey finalFingerprint))
      return ⟨rollbackId, .v2, .v1, finalFingerprint, false⟩

/-! ## The sessions of the scripts -/

theorem session_schemaVersionOf (value : Sql.Value) :
    session (schemaVersionOf value) = SQLiteSandboxDatabase.schemaVersionOf value := by
  cases value with
  | null => rfl
  | integer value => rfl
  | text text =>
      simp only [schemaVersionOf, SQLiteSandboxDatabase.schemaVersionOf]
      cases SchemaVersion.ofValue? text with
      | none => rfl
      | some version => rfl

theorem session_schemaVersionIn :
    session schemaVersionIn = SQLiteSandboxDatabase.schemaVersionIn := by
  refine (session_bind _ _).trans (congrArg (_ >>= ·) (funext fun rows => ?_))
  cases rows.head? with
  | none => rfl
  | some row => exact session_schemaVersionOf _

theorem session_fingerprintIn (runtime : Runtime) :
    session (fingerprintIn runtime) = SQLiteSandboxDatabase.fingerprintIn runtime := by
  refine (session_bind _ _).trans ?_
  rw [session_schemaVersionIn]
  refine congrArg (_ >>= ·) (funext fun version => ?_)
  refine (session_bind _ _).trans (congrArg (_ >>= ·) (funext fun columns => ?_))
  exact session_bind _ _

theorem session_migrationByKey (idempotencyKey : String) :
    session (migrationByKey idempotencyKey) =
      SQLiteSandboxDatabase.migrationByKey idempotencyKey := session_bind _ _

theorem session_appliedMigration (migrationId : String) (existing : List Sql.Value) :
    session (appliedMigration migrationId existing) =
      SQLiteSandboxDatabase.appliedMigration migrationId existing := by
  unfold appliedMigration SQLiteSandboxDatabase.appliedMigration
  simp only [session_ite, session_bind, session_reject, session_schemaVersionOf, session_pure]
  rfl

/-- The migration is the session of its script. -/
theorem transaction_migrateV1ToV2 (runtime : Runtime) (idempotencyKey expectedFingerprint : String) :
    transaction (session (migrateV1ToV2 runtime idempotencyKey expectedFingerprint)) =
      SQLiteSandboxDatabase.migrateV1ToV2 runtime idempotencyKey expectedFingerprint := by
  refine congrArg transaction ((session_bind _ _).trans ?_)
  rw [session_migrationByKey]
  refine congrArg (_ >>= ·) (funext fun existing => ?_)
  cases existing with
  | some existing => exact session_appliedMigration _ _
  | none =>
      simp only [session_ite, session_bind, session_reject, session_schemaVersionIn,
        session_fingerprintIn, session_pure]
      rfl

/-- The rollback is the session of its script. -/
theorem transaction_rollbackV2ToV1 (runtime : Runtime) (idempotencyKey : String) :
    transaction (session (rollbackV2ToV1 runtime idempotencyKey)) =
      SQLiteSandboxDatabase.rollbackV2ToV1 runtime idempotencyKey := by
  refine congrArg transaction ((session_bind _ _).trans ?_)
  rw [session_migrationByKey]
  refine congrArg (_ >>= ·) (funext fun existing => ?_)
  cases existing with
  | some existing => exact session_appliedMigration _ _
  | none =>
      simp only [session_ite, session_bind, session_reject, session_schemaVersionIn,
        session_fingerprintIn, session_executeScript, session_pure]
      rfl

end Scripts

end SQLiteSandboxDatabase

end ChangePilot
