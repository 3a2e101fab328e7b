import ChangePilot.Application.Records
import ChangePilot.Domain.Definitions
import ChangePilot.Library.KeyedTable
import ChangePilot.Library.Transaction
import Mathlib.Data.Prod.Lex

/-!
# The memory store and its unit of work

The store's dictionaries are tables of records that carry their own key; event
logs and sequence counters are read with the defaults of `get` and `setdefault`.

A unit of work reads its snapshot with its own writes applied.  The source keeps
the changed snapshot together with the sets of new and dirty keys; here the
writes themselves are kept, in the order in which they are staged, and `commit`
applies them to the store, which publishes under each key what was staged last.
-/

namespace ChangePilot

/-! ## The store -/

structure SequencedEvent where
  sequence : ℕ
  event : AuditEvent

abbrev DefinitionKey := String ×ₗ ℕ
abbrev StepKey := String ×ₗ String
abbrev AttemptKey := String ×ₗ String ×ₗ ℕ ×ₗ String
abbrev ApprovalKey := String ×ₗ String

def definitionKey (definitionId : String) (version : ℕ) : DefinitionKey :=
  toLex (definitionId, version)

def stepKey (runId stepId : String) : StepKey := toLex (runId, stepId)

def attemptKey (runId stepId : String) (attemptNo : ℕ) (phase : ToolExecutionPhase) :
    AttemptKey :=
  toLex (runId, toLex (stepId, toLex (attemptNo, phase.value)))

def approvalKey (runId requestId : String) : ApprovalKey := toLex (runId, requestId)

def WorkflowDefinition.key (definition : WorkflowDefinition) : DefinitionKey :=
  definitionKey definition.definitionId definition.version

def StepRun.key (step : StepRun) : StepKey := stepKey step.runId step.stepId

def StepAttempt.key (attempt : StepAttempt) : AttemptKey :=
  attemptKey attempt.runId attempt.stepId attempt.attemptNo attempt.phase

def ApprovalRequest.key (request : ApprovalRequest) : ApprovalKey :=
  approvalKey request.runId request.id

structure MemoryStore where
  definitions : KeyedTable WorkflowDefinition.key := .empty
  runs : KeyedTable WorkflowRun.runId := .empty
  steps : KeyedTable StepRun.key := .empty
  attempts : KeyedTable StepAttempt.key := .empty
  approvals : KeyedTable ApprovalRequest.key := .empty
  events : String → List SequencedEvent := fun _ => []
  eventSequences : String → ℕ := fun _ => 0

/-! ## Writes -/

/-- A staged change.  A save of a revisioned record carries the revision that the
store is expected to hold. -/
inductive Write where
  | addDefinition (definition : WorkflowDefinition)
  | addRun (run : WorkflowRun)
  | saveRun (run : WorkflowRun) (expectedRevision : ℕ)
  | addStep (step : StepRun)
  | saveStep (step : StepRun) (expectedRevision : ℕ)
  | addAttempt (attempt : StepAttempt)
  | saveAttempt (attempt : StepAttempt)
  | addApproval (request : ApprovalRequest)
  | saveApproval (request : ApprovalRequest) (expectedVersion : ℕ)
  | appendEvent (event : AuditEvent)

namespace MemoryStore

def putRun (store : MemoryStore) (run : WorkflowRun) : MemoryStore :=
  { store with runs := store.runs.put run }

def putStep (store : MemoryStore) (step : StepRun) : MemoryStore :=
  { store with steps := store.steps.put step }

def putAttempt (store : MemoryStore) (attempt : StepAttempt) : MemoryStore :=
  { store with attempts := store.attempts.put attempt }

def putApproval (store : MemoryStore) (request : ApprovalRequest) : MemoryStore :=
  { store with approvals := store.approvals.put request }

/-- Append an event to the log of its run, under the next sequence number. -/
def appendEvent (store : MemoryStore) (event : AuditEvent) : MemoryStore :=
  let sequence := store.eventSequences event.runId + 1
  { store with
    events := Function.update store.events event.runId
      (store.events event.runId ++ [⟨sequence, event⟩])
    eventSequences := Function.update store.eventSequences event.runId sequence }

def apply (store : MemoryStore) : Write → MemoryStore
  | .addDefinition definition => { store with definitions := store.definitions.put definition }
  | .addRun run | .saveRun run _ => store.putRun run
  | .addStep step | .saveStep step _ => store.putStep step
  | .addAttempt attempt | .saveAttempt attempt => store.putAttempt attempt
  | .addApproval request | .saveApproval request _ => store.putApproval request
  | .appendEvent event => store.appendEvent event

/-! ## Queries -/

/-- `runs.list()`. -/
def listRuns (store : MemoryStore) : List WorkflowRun := store.runs.rows

/-- `attempts.list(run_id)`, in the order of step, number and phase. -/
def listAttempts (store : MemoryStore) (runId : String) : List StepAttempt :=
  store.attempts.rows.filter fun attempt => attempt.runId = runId

/-- `attempts.list(run_id, step_id=...)`. -/
def listStepAttempts (store : MemoryStore) (runId stepId : String) : List StepAttempt :=
  store.attempts.rows.filter fun attempt => attempt.runId = runId ∧ attempt.stepId = stepId

/-- `approvals.list(run_id)`. -/
def listApprovals (store : MemoryStore) (runId : String) : List ApprovalRequest :=
  store.approvals.rows.filter fun request => request.runId = runId

/-- `definitions.get(run.definition_id, run.definition_version)`. -/
def definitionOf (store : MemoryStore) (run : WorkflowRun) : Option WorkflowDefinition :=
  store.definitions.get (definitionKey run.definitionId run.definitionVersion)

def getStep (store : MemoryStore) (runId stepId : String) : Option StepRun :=
  store.steps.get (stepKey runId stepId)

end MemoryStore

/-! ## Validation at commit -/

/-- The revisions that the saves among `writes` expect in the store: for each key
that the unit of work did not add before, that of its first save. -/
def expectedRevisions {K : Type} [DecidableEq K] (added : Write → Option K)
    (saved : Write → Option (K × ℕ)) (writes : List Write) : List (K × ℕ) :=
  (writes.foldl (fun (state : List K × List (K × ℕ)) write =>
    match added write, saved write with
    | some key, _ => (key :: state.1, state.2)
    | none, some (key, revision) =>
        if key ∈ state.1 ∨ key ∈ state.2.map Prod.fst then state
        else (state.1, state.2 ++ [(key, revision)])
    | none, none => state) ([], [])).2

namespace Write

def addedRun : Write → Option String
  | addRun run => some run.runId
  | _ => none

def savedRun : Write → Option (String × ℕ)
  | saveRun run expected => some (run.runId, expected)
  | _ => none

def addedStep : Write → Option StepKey
  | addStep step => some step.key
  | _ => none

def savedStep : Write → Option (StepKey × ℕ)
  | saveStep step expected => some (step.key, expected)
  | _ => none

def addedApproval : Write → Option ApprovalKey
  | addApproval request => some request.key
  | _ => none

def savedApproval : Write → Option (ApprovalKey × ℕ)
  | saveApproval request expected => some (request.key, expected)
  | _ => none

/-- The failure of adding a record whose key the store already has. -/
def uniqueness (store : MemoryStore) : Write → Option Error
  | addDefinition definition =>
      (store.definitions.get definition.key).map fun _ =>
        .uniquenessError "definition" s!"{definition.definitionId}@{definition.version}"
  | addRun run => (store.runs.get run.runId).map fun _ => .uniquenessError "run" run.runId
  | addStep step =>
      (store.steps.get step.key).map fun _ =>
        .uniquenessError "step" s!"{step.runId}:{step.stepId}"
  | addAttempt attempt =>
      (store.attempts.get attempt.key).map fun _ => .uniquenessError "attempt"
        s!"{attempt.runId}:{attempt.stepId}:{attempt.attemptNo}:{attempt.phase.value}"
  | addApproval request =>
      (store.approvals.get request.key).map fun _ =>
        .uniquenessError "approval" s!"{request.runId}:{request.id}"
  | _ => none

/-- The table a write adds to; the tables are checked in this order. -/
def table : Write → ℕ
  | addDefinition _ => 0
  | addRun _ => 1
  | addStep _ => 2
  | addAttempt _ => 3
  | _ => 4

end Write

/-- The runs of the pending requests. -/
def pendingRuns (store : MemoryStore) : List String :=
  (store.approvals.rows.filter fun request => request.status = .pending).map (·.runId)

/-- A run with more than one pending request. -/
def duplicatePendingRun (store : MemoryStore) : Option String :=
  (pendingRuns store).find? fun runId => 1 < (pendingRuns store).count runId

/-- `_validate_uniqueness_locked`; the pending requests are counted in the store
with the staged requests in place. -/
def validateUniqueness (writes : List Write) (store : MemoryStore) : Except Error Unit :=
  let failures := (List.range 5).flatMap fun table =>
    (writes.filter fun write => write.table = table).filterMap (Write.uniqueness store)
  match failures with
  | error :: _ => .error error
  | [] =>
      match duplicatePendingRun (Tx.view MemoryStore.apply store writes) with
      | some runId => .error (.uniquenessError "pending_approval" runId)
      | none => .ok ()

/-- The failure of one optimistic lock. -/
def checkRevision (aggregateType identifier : String) (expected : ℕ) (actual : Option ℕ) :
    Except Error Unit :=
  if actual = some expected then .ok ()
  else .error (.optimisticLockError aggregateType identifier expected
    ((actual.map fun revision => (revision : ℤ)).getD (-1)))

/-- `_validate_revisions_locked`. -/
def validateRevisions (writes : List Write) (store : MemoryStore) : Except Error Unit := do
  (expectedRevisions Write.addedRun Write.savedRun writes).forM fun (runId, expected) =>
    checkRevision "run" runId expected ((store.runs.get runId).map WorkflowRun.revision)
  (expectedRevisions Write.addedStep Write.savedStep writes).forM fun (key, expected) =>
    checkRevision "step" s!"{(ofLex key).1}:{(ofLex key).2}" expected
      ((store.steps.get key).map StepRun.revision)
  (expectedRevisions Write.addedApproval Write.savedApproval writes).forM fun (key, expected) =>
    checkRevision "approval" (ofLex key).2 expected
      ((store.approvals.get key).map ApprovalRequest.version)

/-- The checks of `commit`. -/
def validate (writes : List Write) (store : MemoryStore) : Except Error Unit := do
  validateUniqueness writes store
  validateRevisions writes store

/-- What a valid commit adds was not there before. -/
theorem uniqueness_of_validate {writes : List Write} {store : MemoryStore}
    (h : validate writes store = .ok ()) {write : Write} (hwrite : write ∈ writes) :
    write.uniqueness store = none := by
  have htable : write.table < 5 := by cases write <;> simp [Write.table]
  simp only [validate, Except.bind_eq_ok_iff] at h
  obtain ⟨_, hunique, _⟩ := h
  unfold validateUniqueness at hunique
  generalize hfailures : (List.range 5).flatMap _ = failures at hunique
  cases failures with
  | cons error rest => simp at hunique
  | nil =>
      simp only [List.flatMap_eq_nil_iff, List.filterMap_eq_nil_iff, List.mem_filter,
        decide_eq_true_eq, List.mem_range] at hfailures
      exact hfailures _ htable _ ⟨hwrite, rfl⟩

/-! ## The unit of work -/

abbrev UowM (α : Type) : Type := Tx MemoryStore Write Error α

namespace UowM

abbrev read {α : Type} (f : MemoryStore → α) : UowM α := Tx.read MemoryStore.apply f

abbrev getDefinition (definitionId : String) (version : ℕ) : UowM (Option WorkflowDefinition) :=
  read fun store => store.definitions.get (definitionKey definitionId version)

/-- `definitions.get(run.definition_id, run.definition_version)`. -/
abbrev definitionOf (run : WorkflowRun) : UowM (Option WorkflowDefinition) :=
  read fun store => store.definitionOf run

abbrev getRun (runId : String) : UowM (Option WorkflowRun) := read fun store => store.runs.get runId

abbrev getStep (runId stepId : String) : UowM (Option StepRun) :=
  read fun store => store.getStep runId stepId

abbrev listAttempts (runId : String) : UowM (List StepAttempt) :=
  read fun store => store.listAttempts runId

abbrev listStepAttempts (runId stepId : String) : UowM (List StepAttempt) :=
  read fun store => store.listStepAttempts runId stepId

abbrev listApprovals (runId : String) : UowM (List ApprovalRequest) :=
  read fun store => store.listApprovals runId

abbrev getApproval (runId requestId : String) : UowM (Option ApprovalRequest) :=
  read fun store => store.approvals.get (approvalKey runId requestId)

abbrev addDefinition (definition : WorkflowDefinition) : UowM Unit :=
  Tx.stage (.addDefinition definition)

abbrev addRun (run : WorkflowRun) : UowM Unit := Tx.stage (.addRun run)

abbrev addStep (step : StepRun) : UowM Unit := Tx.stage (.addStep step)

def saveRun (run : WorkflowRun) (expectedRevision : ℕ) : UowM Unit :=
  if run.revision ≠ expectedRevision + 1 then
    throw (.invalidRevisionError "run" run.runId (expectedRevision + 1) run.revision)
  else Tx.stage (.saveRun run expectedRevision)

def saveStep (step : StepRun) (expectedRevision : ℕ) : UowM Unit :=
  if step.revision ≠ expectedRevision + 1 then
    throw (.invalidRevisionError "step" s!"{step.runId}:{step.stepId}" (expectedRevision + 1)
      step.revision)
  else Tx.stage (.saveStep step expectedRevision)

/-- Whether the unit of work has added a record under the key. -/
def hasAdded {K : Type} [DecidableEq K] (added : Write → Option K) (key : K)
    (writes : List Write) : Bool :=
  writes.any fun write => added write = some key

def addAttempt (attempt : StepAttempt) : UowM Unit := do
  let writes ← Tx.staged
  if hasAdded (fun | .addAttempt other => some other.key | _ => none) attempt.key writes then
    throw (.uniquenessError "attempt"
      s!"{attempt.runId}:{attempt.stepId}:{attempt.attemptNo}:{attempt.phase.value}")
  else Tx.stage (.addAttempt attempt)

def saveAttempt (attempt : StepAttempt) : UowM Unit := do
  let _ ← Tx.require
    (.persistenceError (s!"cannot save missing attempt: {attempt.runId}:{attempt.stepId}:" ++
      s!"{attempt.attemptNo}:{attempt.phase.value}"))
    (← read fun store => store.attempts.get attempt.key)
  Tx.stage (.saveAttempt attempt)

def addApproval (request : ApprovalRequest) : UowM Unit := do
  let writes ← Tx.staged
  if hasAdded Write.addedApproval request.key writes then
    throw (.uniquenessError "approval" s!"{request.runId}:{request.id}")
  else Tx.stage (.addApproval request)

def saveApproval (request : ApprovalRequest) (expectedVersion : ℕ) : UowM Unit := do
  if request.version ≠ expectedVersion + 1 then
    throw (.invalidRevisionError "approval" request.id (expectedVersion + 1) request.version)
  let _ ← Tx.require (.persistenceError s!"cannot save missing approval: {request.id}")
    (← read fun store => store.approvals.get request.key)
  Tx.stage (.saveApproval request expectedVersion)

abbrev appendEvent (event : AuditEvent) : UowM Unit := Tx.stage (.appendEvent event)

/-! ## Weakest preconditions of the repositories -/

section

variable {base : MemoryStore} {writes : List Write}

/-- The store as the unit of work sees it. -/
abbrev view (base : MemoryStore) (writes : List Write) : MemoryStore :=
  Tx.view MemoryStore.apply base writes

variable {Q : Unit → List Write → Prop}

@[simp] theorem ensures_saveRun (run : WorkflowRun) (expected : ℕ) :
    Tx.Ensures (saveRun run expected) Q base writes ↔
      (run.revision = expected + 1 → Q () (writes ++ [.saveRun run expected])) := by
  simp [saveRun]

@[simp] theorem ensures_saveStep (step : StepRun) (expected : ℕ) :
    Tx.Ensures (saveStep step expected) Q base writes ↔
      (step.revision = expected + 1 → Q () (writes ++ [.saveStep step expected])) := by
  simp [saveStep]

@[simp] theorem ensures_addAttempt (attempt : StepAttempt) :
    Tx.Ensures (addAttempt attempt) Q base writes ↔
      (hasAdded (fun | .addAttempt other => some other.key | _ => none) attempt.key writes = false →
        Q () (writes ++ [.addAttempt attempt])) := by
  simp [addAttempt]

@[simp] theorem ensures_saveAttempt (attempt : StepAttempt) :
    Tx.Ensures (saveAttempt attempt) Q base writes ↔
      (((view base writes).attempts.get attempt.key).isSome →
        Q () (writes ++ [.saveAttempt attempt])) := by
  simp [saveAttempt, Option.isSome_iff_exists]

@[simp] theorem ensures_addApproval (request : ApprovalRequest) :
    Tx.Ensures (addApproval request) Q base writes ↔
      (hasAdded Write.addedApproval request.key writes = false →
        Q () (writes ++ [.addApproval request])) := by
  simp [addApproval]

@[simp] theorem ensures_saveApproval (request : ApprovalRequest) (expected : ℕ) :
    Tx.Ensures (saveApproval request expected) Q base writes ↔
      (request.version = expected + 1 → ((view base writes).approvals.get request.key).isSome →
        Q () (writes ++ [.saveApproval request expected])) := by
  simp [saveApproval, Option.isSome_iff_exists]

end

end UowM

/-! ## What each write does to each table -/

section

variable (store : MemoryStore)

@[simp] theorem MemoryStore.apply_addRun (run : WorkflowRun) :
    store.apply (.addRun run) = store.putRun run := rfl

@[simp] theorem MemoryStore.apply_saveRun (run : WorkflowRun) (expected : ℕ) :
    store.apply (.saveRun run expected) = store.putRun run := rfl

@[simp] theorem MemoryStore.apply_addStep (step : StepRun) :
    store.apply (.addStep step) = store.putStep step := rfl

@[simp] theorem MemoryStore.apply_saveStep (step : StepRun) (expected : ℕ) :
    store.apply (.saveStep step expected) = store.putStep step := rfl

@[simp] theorem MemoryStore.apply_addAttempt (attempt : StepAttempt) :
    store.apply (.addAttempt attempt) = store.putAttempt attempt := rfl

@[simp] theorem MemoryStore.apply_saveAttempt (attempt : StepAttempt) :
    store.apply (.saveAttempt attempt) = store.putAttempt attempt := rfl

@[simp] theorem MemoryStore.apply_addApproval (request : ApprovalRequest) :
    store.apply (.addApproval request) = store.putApproval request := rfl

@[simp] theorem MemoryStore.apply_saveApproval (request : ApprovalRequest) (expected : ℕ) :
    store.apply (.saveApproval request expected) = store.putApproval request := rfl

@[simp] theorem MemoryStore.apply_appendEvent (event : AuditEvent) :
    store.apply (.appendEvent event) = store.appendEvent event := rfl

end

/-- Run a unit of work with nothing else between its opening and its end. -/
def MemoryStore.transact {α : Type} (body : UowM (Exit α)) (store : MemoryStore) :
    Except Error (α × MemoryStore) :=
  Tx.transact MemoryStore.apply validate body store

end ChangePilot
