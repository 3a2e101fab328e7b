import ChangePilot.Library.Statements
import ChangePilot.Persistence.Runtime
import Mathlib.Data.List.Dedup

/-!
# The SQLite store and its unit of work

The database holds the same records in its tables, with the number of a run's last
event in the run's row.  `Database.load` is what a unit of work reads of it.

A commit checks the new keys, allocates the numbers of the events and then writes
the snapshot row by row.  Before a statement is executed, the driver binds its parameters,
which it cannot do for a number that does not fit into an INTEGER column.  Every statement
is checked against the constraints of the schema by itself, and when one fails, or finds no
row to update, the transaction is rolled back.
-/

namespace ChangePilot

/-! ## The database -/

/-- A row of `workflow_runs`. -/
structure RunRow where
  run : WorkflowRun
  lastEventSequence : ℕ

def RunRow.key (row : RunRow) : String := row.run.runId

def eventKey (entry : Sequenced AuditEvent) : String ×ₗ ℕ :=
  toLex (entry.event.runId, entry.sequence)

structure Database where
  definitions : KeyedTable runtimeRecords.definitionIdentity
  runs : KeyedTable RunRow.key
  steps : KeyedTable runtimeRecords.stepIdentity
  attempts : KeyedTable runtimeRecords.attemptIdentity
  approvals : KeyedTable runtimeRecords.approvalIdentity
  auditEvents : KeyedTable eventKey

/-- The events of a run, in the order of their numbers. -/
def eventsOf (auditEvents : KeyedTable eventKey) (runId : String) : List (Sequenced AuditEvent) :=
  (auditEvents.restrict fun entry => entry.event.runId = runId).rows

/-- The number of the last event of a run. -/
def lastSequence (runs : KeyedTable RunRow.key) (runId : String) : ℕ :=
  ((runs.get runId).map RunRow.lastEventSequence).getD 0

theorem RunRow.runId_run (row : RunRow) : runtimeRecords.runId row.run = row.key := rfl

/-- The column of the runs themselves. -/
def runColumn (runs : KeyedTable RunRow.key) : KeyedTable runtimeRecords.runId :=
  runs.mapRows RunRow.run RunRow.runId_run

/-- What `_Snapshot.from_connection` reads. -/
def Database.load (db : Database) : RecordStore runtimeRecords where
  definitions := db.definitions
  runs := runColumn db.runs
  steps := db.steps
  attempts := db.attempts
  approvals := db.approvals
  events := eventsOf db.auditEvents
  eventSequences := lastSequence db.runs

/-! ## Numbers -/

/-- An INTEGER column holds the numbers of 64 bits. -/
def FitsColumn (n : ℤ) : Prop := -9223372036854775808 ≤ n ∧ n < 9223372036854775808

instance (n : ℤ) : Decidable (FitsColumn n) := inferInstanceAs (Decidable (_ ∧ _))

/-- The INTEGER columns of a run, but for the number of its last event. -/
def WorkflowRun.numbers (run : WorkflowRun) : List ℤ := [run.definitionVersion, run.revision]

def StepRun.numbers (step : StepRun) : List ℤ :=
  step.revision :: (step.completionSequence.map Nat.cast).toList

def AuditEvent.numbers (event : AuditEvent) : List ℤ := [event.previousRevision, event.revision]

/-! ## Constraints -/

/-- How a commit is stopped: by a constraint of the schema, by a number that cannot be
bound, or by an exception of the adapter. -/
inductive SqlFailure where
  | unique (columns : String)
  | foreignKey
  | check (constraint : String)
  | overflow
  | raised (error : PersistenceError)

/-- What `commit` raises: an error of the ports, or the `OverflowError` of the driver, which
none of its `except` clauses is for. -/
inductive CommitError where
  | persistence (error : PersistenceError)
  | overflowError (message : String)

/-- The failures of a constraint are translated by `_translate_integrity_error`. -/
def SqlFailure.translate : SqlFailure → CommitError
  | foreignKey => .persistence (.persistenceError "foreign key constraint failed")
  | unique columns =>
      if "approval_requests.run_id".toList.isPrefixOf columns.toList then
        .persistence (.uniquenessError "pending_approval" "run_id")
      else .persistence (.persistenceError s!"UNIQUE constraint failed: {columns}")
  | check constraint => .persistence (.persistenceError s!"CHECK constraint failed: {constraint}")
  | overflow => .overflowError "Python int too large to convert to SQLite INTEGER"
  | raised error => .persistence error

/-- The driver binds the numbers among the parameters of a statement. -/
def bindNumbers (numbers : List ℤ) : Except SqlFailure Unit :=
  if ∀ n ∈ numbers, FitsColumn n then .ok () else .error .overflow

section

variable {V K : Type} [LinearOrder K] {key : V → K}

def primaryKey (columns : String) (t : KeyedTable key) (v : V) : Except SqlFailure Unit :=
  if (t.get (key v)).isSome then .error (.unique columns) else .ok ()

def references (present : Bool) : Except SqlFailure Unit :=
  if present then .ok () else .error .foreignKey

end

/-- `ck_approval_requests_state`; the other checks on requests hold of every version,
status and decision that there is. -/
def approvalState (request : ApprovalRequest) : Bool :=
  isSha256Digest request.bindingDigest.val &&
    match request.status with
    | .pending => request.version = 0 && request.decision.isNone
    | .approved | .rejected =>
        1 ≤ request.version && request.decision.map ApprovalDecision.status = some request.status
    | .invalidated => 1 ≤ request.version && request.decision.isNone

/-- `ix_approval_requests_pending_unique`: no other request of the run is pending. -/
def pendingIndex (t : KeyedTable runtimeRecords.approvalIdentity) (request : ApprovalRequest) :
    Bool :=
  request.status ≠ .pending || t.rows.all fun other =>
    other.key = request.key || other.status ≠ .pending || other.runId ≠ request.runId

/-- The constraints on the columns of a request, in a table that has its row. -/
def admitApprovalRow (t : KeyedTable runtimeRecords.approvalIdentity) (request : ApprovalRequest) :
    Except SqlFailure Unit :=
  if !approvalState request then .error (.check "ck_approval_requests_state")
  else if !pendingIndex t request then .error (.unique "approval_requests.run_id")
  else .ok ()

/-! ## Publishing -/

/-- An update of a row with a revision, which raises when no row matches. -/
def updateRevised {V K : Type} [LinearOrder K] {key : V → K} (numbers : V → List ℤ)
    (revision : V → ℤ) (allow : KeyedTable key → V → Except SqlFailure Unit)
    (aggregateType : String) (identifier : K → String) :
    KeyedTable key → List (V × ℤ) → Except SqlFailure (KeyedTable key) :=
  KeyedTable.updateAll (fun change => bindNumbers (change.2 :: numbers change.1))
    (fun change => key change.1) (fun old change => revision old = change.2)
    (fun _ change => change.1) allow fun t change =>
      .raised (.optimisticLockError aggregateType (identifier (key change.1)) change.2
        (t.revisionAt revision (key change.1)))

/-- The updates of runs, which keep the number of the last event. -/
def updateRuns : KeyedTable RunRow.key → List (WorkflowRun × ℤ) →
    Except SqlFailure (KeyedTable RunRow.key) :=
  KeyedTable.updateAll (fun change => bindNumbers (change.2 :: change.1.numbers))
    (fun change => change.1.runId) (fun old change => (old.run.revision : ℤ) = change.2)
    (fun old change => ⟨change.1, old.lastEventSequence⟩)
    (fun _ _ => .ok ()) fun t change =>
      .raised (.optimisticLockError "run" change.1.runId change.2
        ((runColumn t).revisionAt runtimeRecords.runRevision change.1.runId))

/-- The constraints on an event; one of no step references its run only. -/
def Database.admitEvent (db : Database) (auditEvents : KeyedTable eventKey)
    (entry : Sequenced AuditEvent) : Except SqlFailure Unit := do
  bindNumbers (entry.sequence :: entry.event.numbers)
  primaryKey "audit_events.run_id, audit_events.sequence" auditEvents entry
  references (db.runs.get entry.event.runId).isSome
  references (entry.event.stepId.all fun stepId =>
    (db.steps.get (stepKey entry.event.runId stepId)).isSome)

namespace Snapshot

variable (snapshot : Snapshot runtimeRecords)

/-! The inserts and updates of `_publish`, table by table. -/

def publishDefinitions (definitions : KeyedTable runtimeRecords.definitionIdentity) :
    Except SqlFailure (KeyedTable runtimeRecords.definitionIdentity) :=
  KeyedTable.insertAll (fun definitions definition => do
      bindNumbers [definition.version]
      primaryKey "workflow_definitions.definition_id, workflow_definitions.version" definitions
        definition)
    definitions snapshot.definitions.addedRows

def publishRuns (runs : KeyedTable RunRow.key) : Except SqlFailure (KeyedTable RunRow.key) := do
  let runs ← KeyedTable.insertAll (fun runs row => do
      bindNumbers (row.lastEventSequence :: row.run.numbers)
      primaryKey "workflow_runs.run_id" runs row)
    runs (snapshot.runs.addedRows.map fun run => ⟨run, snapshot.committedEventSequences run.runId⟩)
  updateRuns runs snapshot.runs.replacements

def publishSteps (runs : KeyedTable RunRow.key) (steps : KeyedTable runtimeRecords.stepIdentity) :
    Except SqlFailure (KeyedTable runtimeRecords.stepIdentity) := do
  let steps ← KeyedTable.insertAll (fun steps step => do
      bindNumbers step.numbers
      primaryKey "step_runs.run_id, step_runs.step_id" steps step
      references (runs.get step.runId).isSome)
    steps snapshot.steps.addedRows
  updateRevised StepRun.numbers runtimeRecords.stepRevision (fun _ _ => .ok ()) "step"
    pairIdentifier steps snapshot.steps.replacements

def publishAttempts (steps : KeyedTable runtimeRecords.stepIdentity)
    (attempts : KeyedTable runtimeRecords.attemptIdentity) :
    Except SqlFailure (KeyedTable runtimeRecords.attemptIdentity) := do
  let attempts ← KeyedTable.insertAll (fun attempts attempt => do
      bindNumbers [attempt.attemptNo]
      primaryKey ("step_attempts.run_id, step_attempts.step_id, step_attempts.attempt_no, " ++
        "step_attempts.phase") attempts attempt
      references (steps.get (stepKey attempt.runId attempt.stepId)).isSome)
    attempts snapshot.attempts.addedRows
  KeyedTable.updateAll (fun attempt => bindNumbers [attempt.attemptNo]) StepAttempt.key
    (fun _ _ => true) (fun _ attempt => attempt) (fun _ _ => .ok ())
    (fun _ attempt => .raised (.persistenceError
      s!"cannot save missing attempt: {attemptIdentifier attempt.key}"))
    attempts snapshot.attempts.savedRows

def publishApprovals (runs : KeyedTable RunRow.key)
    (approvals : KeyedTable runtimeRecords.approvalIdentity) :
    Except SqlFailure (KeyedTable runtimeRecords.approvalIdentity) := do
  let approvals ← KeyedTable.insertAll (fun approvals request => do
      bindNumbers [request.version]
      primaryKey "approval_requests.run_id, approval_requests.approval_key" approvals request
      admitApprovalRow approvals request
      references (runs.get request.runId).isSome)
    approvals snapshot.approvals.addedRows
  updateRevised (fun request => [request.version]) runtimeRecords.approvalVersion admitApprovalRow
    "approval" (fun key => (ofLex key).2) approvals snapshot.approvals.replacements

def publishTables (db : Database) : Except SqlFailure Database := do
  let definitions ← snapshot.publishDefinitions db.definitions
  let runs ← snapshot.publishRuns db.runs
  let steps ← snapshot.publishSteps runs db.steps
  let attempts ← snapshot.publishAttempts steps db.attempts
  let approvals ← snapshot.publishApprovals runs db.approvals
  return { db with definitions, runs, steps, attempts, approvals }

/-- The runs that events are staged for. -/
def pendingRunIds : List String := (snapshot.pendingEvents.map AuditEvent.runId).dedup

/-- `_allocate_published_events`: the last number of each of these runs. -/
def allocate (db : Database) : Except SqlFailure (List (String × ℕ)) :=
  snapshot.pendingRunIds.mapM fun runId =>
    match db.runs.get runId with
    | some row => .ok (runId, row.lastEventSequence)
    | none =>
        if runId ∈ snapshot.runs.added then .ok (runId, 0)
        else .error (.raised (.persistenceError s!"missing workflow run for events: {runId}"))

/-- The inserts of one run's events, and the update of its row. -/
def publishRunEvents (db : Database) (allocated : String × ℕ) : Except SqlFailure Database := do
  let events := snapshot.pendingOf allocated.1
  let auditEvents ← KeyedTable.insertAll db.admitEvent db.auditEvents
    (numberEvents allocated.2 events)
  bindNumbers [↑(allocated.2 + events.length)]
  let runs := match db.runs.get allocated.1 with
    | some row => db.runs.put ⟨row.run, allocated.2 + events.length⟩
    | none => db.runs
  return { db with auditEvents, runs }

/-- A query of `_validate_uniqueness` for each new key of a table. -/
def selectAdded {V K : Type} [LinearOrder K] {key : V → K} (t : StagedTable key)
    (table : KeyedTable key) (numbers : K → List ℤ) (error : K → PersistenceError) :
    Except SqlFailure Unit :=
  t.added.forM fun k => do
    bindNumbers (numbers k)
    if (table.get k).isSome then .error (.raised (error k)) else .ok ()

/-- `_validate_uniqueness`. -/
def validateKeys (db : Database) : Except SqlFailure Unit := do
  selectAdded snapshot.definitions db.load.definitions (fun key => [(ofLex key).2]) fun key =>
    .uniquenessError "definition" (definitionIdentifier key)
  selectAdded snapshot.runs db.load.runs (fun _ => []) fun key => .uniquenessError "run" key
  selectAdded snapshot.steps db.load.steps (fun _ => []) fun key =>
    .uniquenessError "step" (pairIdentifier key)
  selectAdded snapshot.attempts db.load.attempts (fun key => [(ofLex (ofLex (ofLex key).2).2).1])
    fun key => .uniquenessError "attempt" (attemptIdentifier key)
  selectAdded snapshot.approvals db.load.approvals (fun _ => []) fun key =>
    .uniquenessError "approval" (pairIdentifier key)

/-- The transaction of `commit`. -/
def writeTo (db : Database) : Except SqlFailure Database := do
  snapshot.validateKeys db
  let allocated ← snapshot.allocate db
  let written ← snapshot.publishTables db
  allocated.foldlM snapshot.publishRunEvents written

end Snapshot

/-- `SQLiteUnitOfWork.commit` of an open unit of work: a failure rolls back. -/
def commitSqlite (snapshot : Snapshot runtimeRecords) (db : Database) :
    Except CommitError Unit × Database :=
  match snapshot.writeTo db with
  | .ok written => (.ok (), written)
  | .error failure => (.error failure.translate, db)

/-! ## Staging -/

/-- The message of a second save, if the change is one. -/
def RecordOp.secondSave (snapshot : Snapshot runtimeRecords) :
    RecordOp runtimeRecords → Option String
  | .saveRun run _ =>
      if snapshot.runs.hasSaved run.runId then
        some s!"multiple run saves in a single unit of work are not supported: {run.runId}"
      else none
  | .saveStep step _ =>
      if snapshot.steps.hasSaved step.key then
        some ("multiple step saves in a single unit of work are not supported: " ++
          Snapshot.pairIdentifier step.key)
      else none
  | .saveApproval request _ =>
      if snapshot.approvals.hasSaved request.key then
        some s!"multiple approval saves in a single unit of work are not supported: {request.id}"
      else none
  | _ => none

/-- The `add` and `save` methods of the SQLite repositories. -/
def Snapshot.stageSqlite (snapshot : Snapshot runtimeRecords) (op : RecordOp runtimeRecords) :
    Except PersistenceError (Snapshot runtimeRecords) := do
  let next ← snapshot.stage op
  match op.secondSave snapshot with
  | some message => .error (.persistenceError message)
  | none => .ok next

/-- Stage changes one after another; one that raises changes nothing. -/
def stageEach (stage : Snapshot runtimeRecords → RecordOp runtimeRecords →
    Except PersistenceError (Snapshot runtimeRecords)) (snapshot : Snapshot runtimeRecords)
    (ops : List (RecordOp runtimeRecords)) : Snapshot runtimeRecords :=
  ops.foldl (fun snapshot op => (stage snapshot op).toOption.getD snapshot) snapshot

/-- A memory unit of work on the store `base` with some changes, and its commit when
the store is `store`. -/
def runMemory (base store : RecordStore runtimeRecords) (ops : List (RecordOp runtimeRecords)) :
    Except PersistenceError Unit × RecordStore runtimeRecords :=
  match UnitOfWork.commit
    (⟨stageEach Snapshot.stage (.fromStore base) ops, false, false⟩, store) with
  | .ok _ (_, after) => (.ok (), after)
  | .error error (_, after) => (.error error, after)

/-- The same with a SQLite unit of work, opened on the database `base`. -/
def runSqlite (base db : Database) (ops : List (RecordOp runtimeRecords)) :
    Except CommitError Unit × Database :=
  commitSqlite (stageEach Snapshot.stageSqlite (.fromStore base.load) ops) db

end ChangePilot
