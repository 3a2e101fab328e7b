import ChangePilot.Application.Approvals

/-!
# The operations console's event stream

The queries behind the console, and the loop of `_event_stream`.  The loop polls the
events above its cursor, hands them out one by one, reads a snapshot of the run, and
ends when the run has; otherwise it asks whether the client is still there, sleeps and
polls again.  Each of these reads is a transaction of its own, so that other units of
work may commit between any two of them.

Next to what the loop knows goes the log as it was at the last poll and at the last
snapshot, which no definition of the source looks at.
-/

namespace ChangePilot

/-! ## Texts of an event -/

def EventType.value : EventType → String
  | workflowCreated => "workflow.created"
  | runStateChanged => "run.state_changed"
  | stepStateChanged => "step.state_changed"
  | toolAttemptStarted => "tool_attempt_started"
  | toolAttemptCompleted => "tool_attempt_completed"
  | approvalCreated => "approval.created"
  | approvalInvalidated => "approval.invalidated"
  | approvalApproved => "approval.approved"
  | approvalRejected => "approval.rejected"
  | recoveryApplied => "recovery.applied"
  | recoveryNotApplied => "recovery.not_applied"
  | recoveryManualIntervention => "recovery.manual_intervention"

def AggregateState.value : AggregateState → String
  | run state => state.value
  | step state => state.value

/-! ## The console -/

/-- What the console runs with: the deployment, the request that each run was submitted
with, and the standard library functions that only the console calls. -/
structure Console where
  deployment : Deployment
  requestOf : String → Option String
  /-- `text.lower()` -/
  lower : String → String
  /-- `json.dumps(value, sort_keys=True)` -/
  dumps : Value → Except Error String
  /-- the ISO text of an instant -/
  isoformat : Timestamp → String

/-- `_SENSITIVE_KEYS` -/
def consoleSensitiveKeys : List String :=
  ["api_key", "apikey", "authorization", "password", "secret", "token"]

mutual

/-- `_freeze_value` of the queries, which dumps models as it meets them. -/
def freezePayload (runtime : Runtime) : Value → Value
  | .model _ fields => .mappingProxy (freezePayloadFields runtime fields)
  | .secretRef provider _ =>
      .mappingProxy [(.str "provider", .str provider), (.str "name", redacted)]
  | .dict entries | .mappingProxy entries => .mappingProxy (freezePayloadEntries runtime entries)
  | .list items | .tuple items => .tuple (freezePayloadItems runtime items)
  | value => value

def freezePayloadItems (runtime : Runtime) : List Value → List Value
  | [] => []
  | item :: rest => freezePayload runtime item :: freezePayloadItems runtime rest

def freezePayloadFields (runtime : Runtime) : List (String × Value) → List (Value × Value)
  | [] => []
  | (name, value) :: rest =>
      (.str name, freezePayload runtime value) :: freezePayloadFields runtime rest

def freezePayloadEntries (runtime : Runtime) : List (Value × Value) → List (Value × Value)
  | [] => []
  | (key, value) :: rest =>
      (.str (runtime.str key), freezePayload runtime value) :: freezePayloadEntries runtime rest

end

namespace Console

variable (console : Console)

/-- What the console shows of a field whose redacted value is `value`. -/
def showField (name : String) (value : Value) : Value :=
  if console.lower name ∈ consoleSensitiveKeys then .str "***REDACTED***" else value

mutual

/-- `_redact` of the console. -/
def redact : Value → Value
  | .model _ fields => .ofAssignments (redactFields fields)
  | .secretRef provider _ => .ofFields [("provider", .str provider), ("name", redacted)]
  | .dict entries | .mappingProxy entries => .ofAssignments (redactEntries entries)
  | .list items | .tuple items => .list (redactItems items)
  | value => value

def redactItems : List Value → List Value
  | [] => []
  | item :: rest => redact item :: redactItems rest

def redactFields : List (String × Value) → List (String × Value)
  | [] => []
  | (name, value) :: rest => (name, console.showField name (redact value)) :: redactFields rest

def redactEntries : List (Value × Value) → List (String × Value)
  | [] => []
  | (key, value) :: rest =>
      (console.deployment.runtime.str key,
        console.showField (console.deployment.runtime.str key) (redact value))
        :: redactEntries rest

end

end Console

/-! ## Queries -/

/-- `events.list(run_id, after_sequence=...)`. -/
def MemoryStore.listEvents (store : MemoryStore) (runId : String) (afterSequence : ℕ) :
    List SequencedEvent :=
  (store.events runId).filter fun entry => afterSequence < entry.sequence

structure EventDTO where
  sequence : ℕ
  runId : String
  stepId : Option String
  eventType : EventType
  occurredAt : Timestamp
  previousState : AggregateState
  newState : AggregateState
  previousRevision : ℕ
  revision : ℕ
  attemptId : Option String
  attemptNo : Option ℕ
  phase : Option ToolExecutionPhase
  errorClass : Option ErrorClass
  payload : Value

/-- `model_dump(mode="python")`. -/
def EventDTO.modelDump (isoformat : Timestamp → String) (event : EventDTO) : Value :=
  let text (value : Option String) : Value := (value.map Value.str).getD .none
  .ofFields [
    ("sequence", .int event.sequence),
    ("run_id", .str event.runId),
    ("step_id", text event.stepId),
    ("event_type", .str event.eventType.value),
    ("occurred_at", .str (isoformat event.occurredAt)),
    ("previous_state", .str event.previousState.value),
    ("new_state", .str event.newState.value),
    ("previous_revision", .int event.previousRevision),
    ("revision", .int event.revision),
    ("attempt_id", text event.attemptId),
    ("attempt_no", (event.attemptNo.map fun number => Value.int number).getD .none),
    ("phase", text (event.phase.map ToolExecutionPhase.value)),
    ("error_class", text (event.errorClass.map ErrorClass.value)),
    ("payload", event.payload)]

/-- What the snapshot of the console takes from a `RunDTO`. -/
structure RunDTO where
  run : WorkflowRun
  steps : List StepRun
  pendingApproval : Option ApprovalRequest

namespace QueryService

variable (deployment : Deployment) (store : MemoryStore)

/-- `approvals.pending`. -/
def pendingApproval (runId : String) : Except Error (Option ApprovalRequest) :=
  match (store.listApprovals runId).filter fun request => request.status = .pending with
  | [] => .ok none
  | [request] => .ok (some request)
  | _ => .error (.persistenceError s!"multiple pending approvals for run: {runId}")

def getRun (runId : String) : Except Error RunDTO := do
  if runId = "" then
    throw (.lookupError s!"unknown run {runId}")
  let some run := store.runs.get runId
    | throw (.lookupError s!"unknown run {runId}")
  let some definition := store.definitionOf run
    | throw (.lookupError s!"unknown definition {run.definitionId}@{run.definitionVersion}")
  let pending ← pendingApproval store runId
  let some steps := definition.steps.mapM fun step => store.getStep runId step.id
    | throw (.runtimeError s!"run {runId} is missing step state")
  return { run := run, steps := steps, pendingApproval := pending }

/-- The tool whose sensitive paths apply to an event. -/
def eventTool (event : AuditEvent) (steps : List StepDefinition) : Option ToolReference :=
  (event.stepId.bind fun stepId => steps.find? fun step => step.id = stepId).bind fun step =>
    if event.phase = some .compensation then step.compensationTool else some step.tool

def eventSensitivePaths (steps : List StepDefinition) (event : AuditEvent) :
    Except Error (List (List String)) :=
  match eventTool event steps with
  | none => .ok []
  | some reference => do
      let descriptor ← deployment.registry.descriptorFor reference.name reference.version
      return descriptor.sensitiveArgumentPaths

/-- `_event_dto`. -/
def eventDto (steps : List StepDefinition) (entry : SequencedEvent) : Except Error EventDTO := do
  let event := entry.event
  let sensitivePaths ← eventSensitivePaths deployment steps event
  return {
    sequence := entry.sequence
    runId := event.runId
    stepId := event.stepId
    eventType := event.eventType
    occurredAt := event.occurredAt
    previousState := event.previousState
    newState := event.newState
    previousRevision := event.previousRevision
    revision := event.revision
    attemptId := event.attemptId
    attemptNo := event.attemptNo
    phase := event.phase
    errorClass := event.errorClass
    payload := freezePayload deployment.runtime
      (redact deployment.runtime sensitivePaths event.summary) }

def listEvents (runId : String) (afterSequence : ℕ) : Except Error (List EventDTO) := do
  let some run := store.runs.get runId
    | throw (.lookupError s!"unknown run {runId}")
  let steps := ((store.definitionOf run).map WorkflowDefinition.steps).getD []
  (store.listEvents runId afterSequence).mapM (eventDto deployment steps)

end QueryService

structure EventPage where
  runId : String
  afterSequence : ℕ
  nextCursor : ℕ
  events : List EventDTO

/-- What the summary of a snapshot says, apart from the texts the run was submitted
with. -/
structure RunSummary where
  requestId : String
  runId : String
  definitionId : String
  definitionVersion : ℕ
  state : RunState
  revision : ℕ
  pendingApproval : Bool
  lastEventSequence : ℕ

namespace OperationsService

variable (console : Console)

/-- The lookup of `_runtime_for` and `_stored_for_run`. -/
def storedForRun (runId : String) : Except Error String :=
  match console.requestOf runId with
  | some requestId => .ok requestId
  | none => .error (.lookupError s!"unknown run {runId}")

/-- The console's redaction of an event.  None of the event's own fields has a sensitive
name, so that only the payload changes. -/
def showEvent (event : EventDTO) : EventDTO := { event with payload := console.redact event.payload }

def getEvents (store : MemoryStore) (runId : String) (afterSequence : ℕ) :
    Except Error EventPage := do
  let _ ← storedForRun console runId
  let events ← QueryService.listEvents console.deployment store runId afterSequence
  let payloads := events.map (showEvent console)
  return {
    runId := runId
    afterSequence := afterSequence
    nextCursor := (payloads.getLast?.map EventDTO.sequence).getD afterSequence
    events := payloads }

/-- The first read of `_snapshot`. -/
def snapshotRun (store : MemoryStore) (runId : String) : Except Error RunDTO := do
  let _ ← storedForRun console runId
  QueryService.getRun store runId

/-- The second read of `_snapshot`, which completes the summary. -/
def snapshotSummary (store : MemoryStore) (runId : String) (found : RunDTO) :
    Except Error RunSummary := do
  let events ← QueryService.listEvents console.deployment store runId 0
  let requestId ← storedForRun console runId
  return {
    requestId := requestId
    runId := found.run.runId
    definitionId := found.run.definitionId
    definitionVersion := found.run.definitionVersion
    state := found.run.state
    revision := found.run.revision
    pendingApproval := found.pendingApproval.isSome
    lastEventSequence := (events.getLast?.map EventDTO.sequence).getD 0 }

end OperationsService

/-! ## The loop -/

/-- A chunk of the response. -/
inductive Chunk where
  | audit (event : EventDTO) (data : String)
  | heartbeat

def Chunk.text : Chunk → String
  | audit event data => s!"id: {event.sequence}\nevent: audit\ndata: {data}\n\n"
  | heartbeat => ": heartbeat\n\n"

def Chunk.event? : Chunk → Option EventDTO
  | audit event _ => some event
  | heartbeat => none

/-- Why a stream has ended. -/
inductive StreamEnd where
  | terminal
  | disconnected
  | failed (error : Error)

/-- Where the loop is.  `quiet` says that the last page was empty. -/
inductive StreamPhase where
  | polling
  | delivering (rest : List EventDTO) (quiet : Bool)
  | summarizing (found : RunDTO) (quiet : Bool)
  | asking (quiet : Bool)
  | closed (ending : StreamEnd)

/-- The states whose snapshot ends the stream. -/
def streamEndStates : List String :=
  ["succeeded", "failed", "cancelled", "compensated", "compensation_failed",
    "manual_intervention"]

structure EventStream where
  store : MemoryStore
  phase : StreamPhase := .polling
  cursor : ℕ
  chunks : List Chunk := []
  polled : List SequencedEvent := []
  snapshotLog : List SequencedEvent := []

/-- What happens next: a unit of work commits or fails, the loop goes on to its next
read, chunk or await, where `connected` is what the client would be found to be, or the
response is cancelled. -/
inductive StreamAction where
  | transact (body : UowM (Exit Unit))
  | resume (connected : Bool)
  | cancel

namespace EventStream

variable (console : Console) (runId : String)

/-- `service.get_events(run_id, cursor)`. -/
def poll (stream : EventStream) : EventStream :=
  match OperationsService.getEvents console stream.store runId stream.cursor with
  | .error error => { stream with phase := .closed (.failed error) }
  | .ok page => { stream with
      phase := .delivering page.events page.events.isEmpty
      polled := stream.store.events runId }

/-- The next event of the page. -/
def deliver (event : EventDTO) (rest : List EventDTO) (quiet : Bool) (stream : EventStream) :
    EventStream :=
  match console.dumps (event.modelDump console.isoformat) with
  | .error error => { stream with phase := .closed (.failed error) }
  | .ok data => { stream with
      cursor := event.sequence
      chunks := stream.chunks ++ [.audit event data]
      phase := .delivering rest quiet }

/-- The run of `service.get_snapshot(run_id)`. -/
def readRun (quiet : Bool) (stream : EventStream) : EventStream :=
  match OperationsService.snapshotRun console stream.store runId with
  | .error error => { stream with phase := .closed (.failed error) }
  | .ok found => { stream with
      phase := .summarizing found quiet
      snapshotLog := stream.store.events runId }

/-- The rest of `service.get_snapshot(run_id)`, and the test of the run's state. -/
def summarize (found : RunDTO) (quiet : Bool) (stream : EventStream) : EventStream :=
  match OperationsService.snapshotSummary console stream.store runId found with
  | .error error => { stream with phase := .closed (.failed error) }
  | .ok summary =>
      if summary.state.value ∈ streamEndStates then { stream with phase := .closed .terminal }
      else { stream with phase := .asking quiet }

/-- `request.is_disconnected()`, the heartbeat of an empty page and the pause. -/
def ask (quiet connected : Bool) (stream : EventStream) : EventStream :=
  if connected = false then { stream with phase := .closed .disconnected }
  else { stream with
    chunks := if quiet then stream.chunks ++ [.heartbeat] else stream.chunks
    phase := .polling }

def resume (connected : Bool) (stream : EventStream) : EventStream :=
  match stream.phase with
  | .polling => poll console runId stream
  | .delivering (event :: rest) quiet => deliver console event rest quiet stream
  | .delivering [] quiet => readRun console runId quiet stream
  | .summarizing found quiet => summarize console runId found quiet stream
  | .asking quiet => ask quiet connected stream
  | .closed _ => stream

/-- The store after a unit of work, which stays as it was when the unit fails. -/
def transact (body : UowM (Exit Unit)) (store : MemoryStore) : MemoryStore :=
  match store.transact body with
  | .ok (_, next) => next
  | .error _ => store

def cancelled (stream : EventStream) : EventStream :=
  match stream.phase with
  | .closed _ => stream
  | _ => { stream with phase := .closed .disconnected }

def next (stream : EventStream) : StreamAction → EventStream
  | .transact body => { stream with store := transact body stream.store }
  | .resume connected => stream.resume console runId connected
  | .cancel => stream.cancelled

/-- A stream that is about to poll for the first time, on a store with this history. -/
def start (history : List (UowM (Exit Unit))) (after : ℕ) : EventStream where
  store := history.foldl (fun store body => transact body store) {}
  cursor := after

/-- The events that were handed out. -/
def delivered (stream : EventStream) : List EventDTO := stream.chunks.filterMap Chunk.event?

end EventStream

end ChangePilot
