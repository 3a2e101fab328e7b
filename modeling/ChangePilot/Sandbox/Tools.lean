import ChangePilot.Ports.Tools
import ChangePilot.Sandbox.Manager

/-!
# The tools of the sandbox

The order service of a sandbox, the tools that inspect, migrate, deploy, validate and undo
in it, and the injection of faults into them.
-/

namespace ChangePilot

/-! ## Outputs -/

structure ServiceHealth where
  healthy : Bool
  serviceVersion : ServiceVersion
  schemaVersion : SchemaVersion
  detail : String
  deriving DecidableEq, Repr

structure EnvironmentOutput where
  state : SandboxState
  summary : String
  evidenceDigest : String
  deriving DecidableEq, Repr

structure ActionOutput where
  sandboxId : String
  action : String
  before : Option SandboxState
  after : SandboxState
  summary : String
  alreadyApplied : Bool := false
  deriving DecidableEq, Repr

structure ValidationOutput where
  state : SandboxState
  success : Bool
  checks : List String
  summary : String
  deriving DecidableEq, Repr

inductive SandboxOutput where
  | environment (output : EnvironmentOutput)
  | action (output : ActionOutput)
  | validation (output : ValidationOutput)
  deriving DecidableEq, Repr

structure SandboxResult where
  output : SandboxOutput
  effectApplied : Bool
  deriving DecidableEq, Repr

inductive SandboxProbe where
  | found (output : ActionOutput)
  | notFound
  | inconclusive
  deriving DecidableEq, Repr

/-! ## Texts of outputs -/

def statePayload {S : Type} (state : SandboxState) : Json S :=
  .obj [("database_fingerprint", .str state.databaseFingerprint),
    ("migration_ids", .arr (state.migrationIds.map .str)), ("root", .str state.root),
    ("sandbox_id", .str state.sandboxId), ("schema_version", .str state.schemaVersion.value),
    ("service_version", .str state.serviceVersion.value)]

def outputPayload (output : ActionOutput) : Json (Option Bool) :=
  .obj [("action", .str output.action), ("after", statePayload output.after),
    ("already_applied", .scalar (some output.alreadyApplied)),
    ("before", (output.before.map statePayload).getD (.scalar none)),
    ("sandbox_id", .str output.sandboxId), ("summary", .str output.summary)]

/-- `json.dumps` of a dumped output; there is no number in it. -/
def dumpOutput (output : ActionOutput) : String :=
  String.ofList ((outputPayload output).encode fun constant => (constantText constant).toList)

/-- `model_validate_json` of what `json.loads` makes of a text: what was dumped is read back. -/
structure OutputTexts where
  load : String → Option ActionOutput
  load_dump : ∀ output, load (dumpOutput output) = some output

/-- What the tools of a sandbox are built with. -/
structure SandboxTools extends SandboxManager where
  runtime : Runtime
  texts : OutputTexts

/-! ## The order service -/

namespace SandboxTools

variable (tools : SandboxTools) (sandboxId : String)

def compatible (state : SandboxState) : Prop :=
  state.serviceVersion = .v1 ∨ state.serviceVersion = .v2 ∧ state.schemaVersion = .v2

instance (state : SandboxState) : Decidable (compatible state) := by
  unfold compatible
  infer_instance

/-- `OrderService.health` -/
def health : Sandboxed ServiceHealth := do
  let state ← tools.inspect sandboxId
  return {
    healthy := compatible state
    serviceVersion := state.serviceVersion
    schemaVersion := state.schemaVersion
    detail := if compatible state then "service and database are compatible"
      else "service v2 requires schema v2" }

def reject {α : Type} (message : String) : Sandboxed α :=
  throw (.database (.program (.sandboxDatabaseError message)))

/-- `SQLiteSandboxDatabase.list_orders` -/
def selectOrders (path : String) : Sandboxed (List OrderRecord) := do
  let version ← operate (.database path .schemaVersion)
  let rows ← operate (.database path (.selectOrders version))
  match rows.mapM (SQLiteSandboxDatabase.orderOf version) with
  | .ok orders => return orders
  | .error error => throw (.database (.program error))

/-- `OrderService.list_orders` -/
def listOrders : Sandboxed (List OrderRecord) := do
  let health ← tools.health sandboxId
  if ¬ health.healthy then
    reject "service and database are incompatible"
  selectOrders (← tools.databasePath sandboxId)

/-- `SQLiteSandboxDatabase.insert_order` -/
def insertOrder (path : String) (order : OrderRecord) : Sandboxed Unit := do
  let version ← operate (.database path .schemaVersion)
  operate (.database path (.insertOrder version order))

/-- `OrderService.create_order` -/
def createOrder (order : OrderRecord) : Sandboxed OrderRecord := do
  let state ← tools.inspect sandboxId
  if state.serviceVersion = .v1 ∧ order.priority ≠ none then
    reject "service v1 does not accept priority"
  let health ← tools.health sandboxId
  if ¬ health.healthy then
    reject "service and database are incompatible"
  insertOrder (← tools.databasePath sandboxId) order
  return order

/-! ## Tools -/

/-- The errors that a tool declares become permanent failures. -/
def permanently {α : Type} (x : Sandboxed α) : Sandboxed α :=
  tryCatch x fun e =>
    match e.message? with
    | some message => throw (.domainError message .permanent)
    | none => throw e

/-- `_digest`; no number in the state is a float. -/
def digest (state : SandboxState) : String :=
  (tools.runtime.sha256 (jsonText (fun _ => "") (statePayload state))).val

namespace EnvironmentInspectTool

def execute : Sandboxed SandboxResult := do
  let state ← permanently (tools.inspect sandboxId)
  return {
    output := .environment {
      state := state
      summary := s!"{state.sandboxId}: service={state.serviceVersion.value}, schema={state.schemaVersion.value}, migrations={state.migrationIds.length}"
      evidenceDigest := tools.digest state }
    effectApplied := false }

end EnvironmentInspectTool

namespace UpgradePrecheckTool

def execute : Sandboxed SandboxResult := do
  let result ← EnvironmentInspectTool.execute tools sandboxId
  match result.output with
  | .environment output =>
      if output.state.serviceVersion ≠ .v1 ∨ output.state.schemaVersion ≠ .v1 then
        throw (.domainError "upgrade precheck requires service v1 and schema v1" .permanent)
      return result
  | _ => return result

end UpgradePrecheckTool

namespace SchemaMigrateTool

def execute (key expectedFingerprint : String) : Sandboxed SandboxResult := do
  let (before, migration, after) ← permanently do
    let before ← tools.inspect sandboxId
    let path ← tools.databasePath sandboxId
    let migration ← operate (.database path (.migrateV1ToV2 key expectedFingerprint))
    let after ← tools.inspect sandboxId
    return (before, migration, after)
  return {
    output := .action {
      sandboxId := sandboxId
      action := "schema.migrate"
      before := some before
      after := after
      summary := if migration.alreadyApplied then "schema migration already applied"
        else "schema migrated from v1 to v2"
      alreadyApplied := migration.alreadyApplied }
    effectApplied := ¬ migration.alreadyApplied }

end SchemaMigrateTool

/-- Whether the ledger holds a change to the version under the key, with the state if so. -/
def probeLedger (key : String) (version : SchemaVersion) (action summary : String) :
    Sandboxed SandboxProbe :=
  tryCatch (do
    let path ← tools.databasePath sandboxId
    let migration ← operate (.database path (.migrationForKey key))
    if (migration.map MigrationResult.toVersion) = some version then
      let after ← tools.inspect sandboxId
      return .found {
        sandboxId := sandboxId
        action := action
        before := none
        after := after
        summary := summary
        alreadyApplied := true }
    else return .notFound) fun _ => return .inconclusive

def SchemaMigrateTool.probe (key : String) : Sandboxed SandboxProbe :=
  tools.probeLedger sandboxId key .v2 "schema.migrate" "migration found in the sandbox ledger"

namespace SchemaRollbackTool

def execute (key : String) : Sandboxed SandboxResult := do
  let (before, migration, after) ← permanently do
    let before ← tools.inspect sandboxId
    if before.serviceVersion ≠ .v1 then
      reject "schema rollback requires service v1"
    let path ← tools.databasePath sandboxId
    let migration ← operate (.database path (.rollbackV2ToV1 key))
    let after ← tools.inspect sandboxId
    return (before, migration, after)
  return {
    output := .action {
      sandboxId := sandboxId
      action := "schema.rollback"
      before := some before
      after := after
      summary := if migration.alreadyApplied then "schema rollback already applied"
        else "schema rolled back from v2 to v1"
      alreadyApplied := migration.alreadyApplied }
    effectApplied := ¬ migration.alreadyApplied }

def probe (key : String) : Sandboxed SandboxProbe :=
  tools.probeLedger sandboxId key .v1 "schema.rollback" "rollback found in the sandbox ledger"

end SchemaRollbackTool

/-- `ActionOutput.model_validate_json` of a recorded output -/
def loadOutput (text : String) : Sandboxed ActionOutput :=
  match tools.texts.load text with
  | some output => pure output
  | none => throw (.valueError "stored tool output is invalid")

/-- `_ServiceVersionTool` -/
structure ServiceVersionTool where
  name : String
  targetVersion : ServiceVersion
  deriving DecidableEq

namespace ServiceVersionTool

variable (tool : ServiceVersionTool)

/-- What is returned under a new key. -/
def output (before after : SandboxState) : ActionOutput where
  sandboxId := sandboxId
  action := tool.name
  before := some before
  after := after
  summary := if before.serviceVersion ≠ tool.targetVersion
    then s!"service set to {tool.targetVersion.value}"
    else s!"service already at {tool.targetVersion.value}"
  alreadyApplied := before.serviceVersion = tool.targetVersion

def execute (key : String) : Sandboxed SandboxResult := permanently do
  let path ← tools.databasePath sandboxId
  match ← operate (.database path (.effectOutput key tool.name)) with
  | some existing =>
      let output ← tools.loadOutput existing
      return { output := .action output, effectApplied := false }
  | none => do
      let before ← tools.inspect sandboxId
      if tool.targetVersion = .v2 ∧ before.schemaVersion ≠ .v2 then
        reject "service v2 requires schema v2"
      let after ← tools.setServiceVersion sandboxId tool.targetVersion
      let output := tool.output sandboxId before after
      operate (.database path (.recordEffect key tool.name (dumpOutput output)))
      return { output := .action output, effectApplied := ¬ output.alreadyApplied }

def probe (key : String) : Sandboxed SandboxProbe := do
  let payload ← tryCatch (do
      let path ← tools.databasePath sandboxId
      return some (← operate (.database path (.effectOutput key tool.name))))
    fun _ => return none
  match payload with
  | none => return .inconclusive
  | some none => return .notFound
  | some (some text) => return .found (← tools.loadOutput text)

end ServiceVersionTool

namespace ValidationTool

def execute (smokeTest : Bool) : Sandboxed SandboxResult := do
  let (state, checks) ← permanently do
    let state ← tools.inspect sandboxId
    let health ← tools.health sandboxId
    if ¬ health.healthy then
      reject health.detail
    if smokeTest then
      let orders ← tools.listOrders sandboxId
      if orders.length = 0 then
        reject "order fixture is empty"
      if state.serviceVersion = .v2 ∧ ∃ order ∈ orders, order.priority = none then
        reject "v2 order response lacks priority"
      return (state, ["service_database_compatible", "orders_readable", "versioned_contract_valid"])
    return (state, ["service_database_compatible"])
  return {
    output := .validation {
      state := state
      success := true
      checks := checks
      summary := if smokeTest then "order smoke test passed" else "service health check passed" }
    effectApplied := false }

end ValidationTool

/-! ## Faults -/

namespace DeterministicFaultInjector

def configure (specs : List FaultSpec) : Sandboxed Unit := do
  if ¬ (specs.map fun spec => (spec.toolName, spec.callNumber)).Nodup then
    throw (.valueError "duplicate fault tool/call configuration")
  operate (.writeFaults { specs := specs })

/-- `next_fault` -/
def nextFault (toolName : String) : Sandboxed (Option FaultType) := do
  let configuration ← operate .readFaults
  let callNumber := configuration.callCounts toolName + 1
  operate (.writeFaults { configuration with
    callCounts := Function.update configuration.callCounts toolName callNumber })
  return (configuration.specs.find? fun spec =>
    spec.toolName = toolName ∧ spec.callNumber = callNumber).map FaultSpec.faultType

end DeterministicFaultInjector

/-- `FaultInjectingTool.execute` -/
def injectFaults (toolName : String) (inner : Sandboxed SandboxResult) :
    Sandboxed SandboxResult := do
  let fault ← DeterministicFaultInjector.nextFault toolName
  if fault = some .beforeEffect then
    throw (.domainError "injected interruption before tool effect" .resultUnknown)
  if fault = some .permanentFailure then
    throw (.domainError "injected permanent tool failure" .permanent)
  let result ← inner
  if fault = some .afterEffect then
    throw (.domainError "injected interruption after tool effect" .resultUnknown)
  return result

/-! ## The suite -/

/-- A call of a tool, with the arguments and the key that it reads. -/
inductive Call where
  | inspect (name : String)
  | precheck
  | migrate (key expectedFingerprint : String)
  | serviceVersion (tool : ServiceVersionTool) (key : String)
  | validation (name : String) (smokeTest : Bool)
  | rollback (key : String)

def Call.name : Call → String
  | inspect name | validation name _ => name
  | precheck => "upgrade.precheck"
  | migrate .. => "schema.migrate"
  | serviceVersion tool _ => tool.name
  | rollback _ => "schema.rollback"

def deployV2 : ServiceVersionTool := ⟨"service.deploy-v2", .v2⟩

def restore : ServiceVersionTool := ⟨"service.restore", .v1⟩

/-- The call of a tool of `build_sandbox_tool_suite`, without and with a fault injector. -/
def execute : Call → Sandboxed SandboxResult
  | .inspect _ => EnvironmentInspectTool.execute tools sandboxId
  | .precheck => UpgradePrecheckTool.execute tools sandboxId
  | .migrate key expectedFingerprint =>
      SchemaMigrateTool.execute tools sandboxId key expectedFingerprint
  | .serviceVersion tool key => tool.execute tools sandboxId key
  | .validation _ smokeTest => ValidationTool.execute tools sandboxId smokeTest
  | .rollback key => SchemaRollbackTool.execute tools sandboxId key

def executeWithFaults (call : Call) : Sandboxed SandboxResult :=
  injectFaults call.name (tools.execute sandboxId call)

/-- Tools that change nothing find nothing. -/
def probe : Call → Sandboxed SandboxProbe
  | .migrate key _ => SchemaMigrateTool.probe tools sandboxId key
  | .serviceVersion tool key => tool.probe tools sandboxId key
  | .rollback key => SchemaRollbackTool.probe tools sandboxId key
  | .inspect _ | .precheck | .validation .. => return .notFound

end SandboxTools

end ChangePilot
