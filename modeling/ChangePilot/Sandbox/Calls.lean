import ChangePilot.Library.Hazards
import ChangePilot.Sandbox.Scripts

/-!
# Calls of the sandbox database

The methods of the sandbox database that use one connection, each with the script that it
runs there.  A call may fail or be cut off at any of its requests.
-/

namespace ChangePilot

open Sql

namespace SQLiteSandboxDatabase

namespace Scripts

open Script

/-- `sandbox_id` -/
def sandboxId : Requests String := do
  let rows ← ask (.select "sandbox_metadata" ["value"] (.eq "key" (.text "sandbox_id")) none)
  match rows.head? with
  | none => reject (.sandboxDatabaseError "sandbox identity metadata is missing")
  | some row => return str (row.getD 0 .null)

def migrationIds : Requests (List String) := do
  let rows ← ask (.select "migration_ledger" ["migration_id"] .always (some "migration_id"))
  return rows.map fun row => str (row.getD 0 .null)

/-- What `insert_order` does when it has read the version. -/
def insertOrder (version : SchemaVersion) (order : OrderRecord) : Requests Unit :=
  match version with
  | .v1 => do
      if order.priority.isSome then
        reject (.sandboxDatabaseError "priority is unavailable in schema v1")
      ask (.execute (insertOrderV1 order.orderId order.customer order.totalCents))
  | .v2 =>
      ask (.execute (insertOrderV2 order.orderId order.customer order.totalCents (priorityOf order)))

def migrationForKey (idempotencyKey : String) : Requests (Option MigrationResult) := do
  match ← migrationByKey idempotencyKey with
  | none => return none
  | some row =>
      return some {
        migrationId := str (row.getD 0 .null)
        fromVersion := ← schemaVersionOf (row.getD 1 .null)
        toVersion := ← schemaVersionOf (row.getD 2 .null)
        databaseFingerprint := str (row.getD 3 .null)
        alreadyApplied := true }

/-- The text of the output that is recorded under the key. -/
def effectOutput (logicalIdempotencyKey toolName : String) : Requests (Option String) := do
  let rows ← ask (.select "tool_effects" ["tool_name", "output_json"]
    (.eq "logical_idempotency_key" (.text logicalIdempotencyKey)) none)
  match rows.head? with
  | none => return none
  | some row =>
      if row.getD 0 .null ≠ .text toolName then
        reject (.sandboxDatabaseError "idempotency key belongs to another tool")
      return some (str (row.getD 1 .null))

def recordEffect (logicalIdempotencyKey toolName outputJson : String) : Requests Unit :=
  ask (.execute (.insert "tool_effects" [
    ("logical_idempotency_key", .text logicalIdempotencyKey), ("tool_name", .text toolName),
    ("output_json", .text outputJson)]))

/-- An insertion reads the version on one connection, and inserts on another. -/
theorem transaction_insertOrder (order : OrderRecord) : SQLiteSandboxDatabase.insertOrder order =
    schemaVersion >>= fun version => transaction (session (insertOrder version order)) := by
  refine congrArg (schemaVersion >>= ·) (funext fun version => congrArg transaction ?_)
  cases version with
  | v1 =>
      unfold insertOrder
      simp only [session_ite, session_bind, session_reject]
      rfl
  | v2 => rfl

end Scripts

end SQLiteSandboxDatabase

open SQLiteSandboxDatabase

/-- The methods of the sandbox database that use one connection. -/
inductive DatabaseCall where
  | schemaVersion
  | sandboxId
  | migrationIds
  | fingerprint
  | selectOrders (version : SchemaVersion)
  | insertOrder (version : SchemaVersion) (order : OrderRecord)
  | migrateV1ToV2 (idempotencyKey expectedFingerprint : String)
  | rollbackV2ToV1 (idempotencyKey : String)
  | migrationForKey (idempotencyKey : String)
  | effectOutput (logicalIdempotencyKey toolName : String)
  | recordEffect (logicalIdempotencyKey toolName outputJson : String)

namespace DatabaseCall

abbrev Answer : DatabaseCall → Type
  | .schemaVersion => SchemaVersion
  | .sandboxId | .fingerprint => String
  | .migrationIds => List String
  | .selectOrders _ => List (List Sql.Value)
  | .insertOrder .. | .recordEffect .. => Unit
  | .migrateV1ToV2 .. | .rollbackV2ToV1 _ => MigrationResult
  | .migrationForKey _ => Option MigrationResult
  | .effectOutput .. => Option String

def script (runtime : Runtime) : (call : DatabaseCall) → Requests call.Answer
  | .schemaVersion => Scripts.schemaVersionIn
  | .sandboxId => Scripts.sandboxId
  | .migrationIds => Scripts.migrationIds
  | .fingerprint => Scripts.fingerprintIn runtime
  | .selectOrders version => Scripts.selectOrders version
  | .insertOrder version order => Scripts.insertOrder version order
  | .migrateV1ToV2 idempotencyKey expectedFingerprint =>
      Scripts.migrateV1ToV2 runtime idempotencyKey expectedFingerprint
  | .rollbackV2ToV1 idempotencyKey => Scripts.rollbackV2ToV1 runtime idempotencyKey
  | .migrationForKey idempotencyKey => Scripts.migrationForKey idempotencyKey
  | .effectOutput logicalIdempotencyKey toolName =>
      Scripts.effectOutput logicalIdempotencyKey toolName
  | .recordEffect logicalIdempotencyKey toolName outputJson =>
      Scripts.recordEffect logicalIdempotencyKey toolName outputJson

/-- The call without a mishap: a transaction on its connection. -/
def perform (runtime : Runtime) (call : DatabaseCall) :
    SQLiteSandboxDatabase.Action call.Answer :=
  transaction (Script.session (call.script runtime))

/-- The call ends with a result, or it is cut off and there is none; what is committed by
then is found later. -/
def Leaves (runtime : Runtime) (call : DatabaseCall) (d : Sql.Database)
    (result : Option (Except (Raised DatabaseError) call.Answer)) (next : Sql.Database) : Prop :=
  ∃ c : Connection, Prog.Ends (.ofExec Request.perform)
    (ExceptT.run (Script.connected (call.script runtime))) { committed := d } result c ∧
    c.committed = next

/-- A call without a mishap leaves what it performs. -/
theorem leaves_perform (runtime : Runtime) (call : DatabaseCall) (d : Sql.Database) :
    call.Leaves runtime d (some (call.perform runtime d).1) (call.perform runtime d).2 := by
  rw [perform, Script.transaction_session]
  exact ⟨_, Prog.ends_alone (fun _ _ => Or.inl rfl) _ _, rfl⟩

end DatabaseCall

end ChangePilot
