import ChangePilot.Sandbox.Calls

/-!
# The sandbox manager

A sandbox is a directory with the database of the orders, the version of the service, and
the faults that are configured for it.  The programs of the sandbox read and change these
files; each of their operations may fail, and the process may die in it.
-/

namespace ChangePilot

open Sql

/-! ## Files -/

inductive ServiceVersion where
  | v1 | v2
  deriving DecidableEq, Repr

def ServiceVersion.value : ServiceVersion → String
  | v1 => "v1"
  | v2 => "v2"

def ServiceVersion.ofValue? : String → Option ServiceVersion
  | "v1" => some v1
  | "v2" => some v2
  | _ => none

/-- `sandbox.json` -/
structure StateFile where
  sandboxId : String
  serviceVersion : String
  deriving DecidableEq, Repr

inductive FaultType where
  | beforeEffect | afterEffect | permanentFailure
  deriving DecidableEq, Repr

structure FaultSpec where
  toolName : String
  callNumber : ℕ
  faultType : FaultType
  deriving DecidableEq, Repr

/-- `faults.json`; a tool that was never called counts zero calls. -/
structure FaultConfiguration where
  specs : List FaultSpec := []
  callCounts : String → ℕ := fun _ => 0

/-- The directory of a sandbox.  The temporary files, which are never read, are left out. -/
structure SandboxFiles where
  stateFile : Option StateFile := none
  database : Option Sql.Database := none
  faults : FaultConfiguration := {}

/-! ## Errors -/

/-- What the programs of the sandbox raise. -/
inductive SandboxError where
  | database (error : Raised DatabaseError)
  | boundaryError (message : String)
  | osError (message : String)
  | valueError (message : String)
  | domainError (message : String) (errorClass : ErrorClass)
  deriving DecidableEq, Repr

/-- The errors that `_permanent` is applied to: `SandboxBoundaryError`,
`SandboxDatabaseError` and `OSError`. -/
def SandboxError.message? : SandboxError → Option String
  | .database (.program (.sandboxDatabaseError message)) => some message
  | .boundaryError message | .osError message => some message
  | _ => none

/-- `_classify_tool_exception` -/
def SandboxError.errorClass : SandboxError → ErrorClass
  | .domainError _ errorClass => errorClass
  | _ => .permanent

/-! ## Operations -/

inductive SandboxOp where
  | readState
  | writeTemporary
  | replaceState (file : StateFile)
  | readFaults
  | writeFaults (configuration : FaultConfiguration)
  | database (path : String) (call : DatabaseCall)

abbrev SandboxOp.Answer : SandboxOp → Type
  | .readState => Option StateFile
  | .readFaults => FaultConfiguration
  | .writeTemporary | .replaceState _ | .writeFaults _ => Unit
  | .database _ call => call.Answer

/-- `_connect` of a file that is not there -/
def missingDatabase (path : String) : SandboxError :=
  .database (.program (.sandboxDatabaseError s!"sandbox database does not exist: {path}"))

/-- The operation without a mishap. -/
def SandboxOp.perform (runtime : Runtime) (op : SandboxOp) (files : SandboxFiles) :
    Except SandboxError op.Answer × SandboxFiles :=
  match op with
  | .readState => (.ok files.stateFile, files)
  | .writeTemporary => (.ok (), files)
  | .replaceState file => (.ok (), { files with stateFile := some file })
  | .readFaults => (.ok files.faults, files)
  | .writeFaults configuration => (.ok (), { files with faults := configuration })
  | .database path call =>
      match files.database with
      | none => (.error (missingDatabase path), files)
      | some d => ((call.perform runtime d).1.mapError .database,
          { files with database := some (call.perform runtime d).2 })

/-- How an operation may end: as it does, with an error of its own before it has done
anything, or, for a call of the database, with an error wherever the call may be cut off. -/
inductive SandboxOp.Ends (runtime : Runtime) : (op : SandboxOp) → SandboxFiles →
    Except SandboxError op.Answer → SandboxFiles → Prop
  | performed (op : SandboxOp) (files : SandboxFiles)
      (hop : ∀ path call, op = .database path call → files.database = none) :
      Ends runtime op files (op.perform runtime files).1 (op.perform runtime files).2
  | failed (op : SandboxOp) (files : SandboxFiles) (error : SandboxError) :
      Ends runtime op files (.error error) files
  | called (path : String) {call : DatabaseCall} {files : SandboxFiles} {d next : Sql.Database}
      {result : Except (Raised DatabaseError) call.Answer} (hdatabase : files.database = some d)
      (hleaves : call.Leaves runtime d (some result) next) :
      Ends runtime (.database path call) files (result.mapError .database)
        { files with database := some next }
  | broken (path : String) {call : DatabaseCall} {files : SandboxFiles} {d next : Sql.Database}
      (error : SandboxError) (hdatabase : files.database = some d)
      (hleaves : call.Leaves runtime d none next) :
      Ends runtime (.database path call) files (.error error)
        { files with database := some next }

/-- What an operation may leave when the process dies in it. -/
inductive SandboxOp.Stops (runtime : Runtime) : SandboxOp → SandboxFiles → SandboxFiles → Prop
  | before (op : SandboxOp) (files : SandboxFiles) : Stops runtime op files files
  | within (path : String) {call : DatabaseCall} {files : SandboxFiles} {d next : Sql.Database}
      (hdatabase : files.database = some d) (hleaves : call.Leaves runtime d none next) :
      Stops runtime (.database path call) files { files with database := some next }

def sandboxHazards (runtime : Runtime) :
    Hazards SandboxOp SandboxOp.Answer SandboxError SandboxFiles where
  ends := SandboxOp.Ends runtime
  stops := SandboxOp.Stops runtime

abbrev Sandboxed (α : Type) : Type :=
  Routine SandboxOp (fun op => Except SandboxError op.Answer) SandboxError α

def operate (op : SandboxOp) : Sandboxed op.Answer := Routine.perform op

/-! ## The manager -/

structure SandboxState where
  sandboxId : String
  root : String
  serviceVersion : ServiceVersion
  schemaVersion : SchemaVersion
  migrationIds : List String
  databaseFingerprint : String
  deriving DecidableEq, Repr

/-- The manager of the sandboxes in a directory. -/
structure SandboxManager where
  base : String

/-- `_SANDBOX_ID.fullmatch` -/
def isSandboxId (sandboxId : String) : Bool :=
  match sandboxId.toList with
  | [] => false
  | first :: rest => first.isAlphanum && rest.length ≤ 63 &&
      rest.all fun c => c.isAlphanum || c == '_' || c == '-'

namespace SandboxManager

variable (manager : SandboxManager) (sandboxId : String)

/-- `_sandbox_root`; what passes the check names a directory in the base. -/
def sandboxRoot : Sandboxed String := do
  if ¬ isSandboxId sandboxId then
    throw (.boundaryError "sandbox id must contain only letters, digits, '_' or '-'")
  return s!"{manager.base}/{sandboxId}"

/-- `database_path` -/
def databasePath : Sandboxed String := do
  let root ← manager.sandboxRoot sandboxId
  return s!"{root}/orders.db"

/-- `ServiceVersion(value)` -/
def serviceVersionOf (value : String) : Sandboxed ServiceVersion :=
  match ServiceVersion.ofValue? value with
  | some version => pure version
  | none => throw (.valueError s!"'{value}' is not a valid ServiceVersion")

def inspect : Sandboxed SandboxState := do
  let root ← manager.sandboxRoot sandboxId
  match ← operate .readState with
  | none => throw (.osError s!"sandbox '{sandboxId}' does not exist")
  | some payload => do
      let serviceVersion ← serviceVersionOf payload.serviceVersion
      let databasePath := s!"{root}/orders.db"
      let storedId ← operate (.database databasePath .sandboxId)
      if storedId ≠ sandboxId ∨ payload.sandboxId ≠ sandboxId then
        throw (.boundaryError "sandbox identity mismatch")
      return {
        sandboxId := sandboxId
        root := root
        serviceVersion := serviceVersion
        schemaVersion := ← operate (.database databasePath .schemaVersion)
        migrationIds := ← operate (.database databasePath .migrationIds)
        databaseFingerprint := ← operate (.database databasePath .fingerprint) }

/-- `_write_service_version` -/
def writeServiceVersion (version : ServiceVersion) : Sandboxed Unit := do
  operate .writeTemporary
  operate (.replaceState ⟨sandboxId, version.value⟩)

def setServiceVersion (version : ServiceVersion) : Sandboxed SandboxState := do
  let _ ← manager.sandboxRoot sandboxId
  let _ ← manager.inspect sandboxId
  writeServiceVersion sandboxId version
  manager.inspect sandboxId

end SandboxManager

end ChangePilot
