import ChangePilot.Ports.Tools

/-!
# Audit events

The events of a run's log, with one constructor function for each of the
source's.  The states an event names are those of a run or of a step.
-/

namespace ChangePilot

inductive EventType where
  | workflowCreated
  | runStateChanged | stepStateChanged
  | toolAttemptStarted | toolAttemptCompleted
  | approvalCreated | approvalInvalidated | approvalApproved | approvalRejected
  | recoveryApplied | recoveryNotApplied | recoveryManualIntervention
  deriving DecidableEq, Repr

/-- A state named by an event. -/
inductive AggregateState where
  | run (state : RunState)
  | step (state : StepState)
  deriving DecidableEq, Repr

structure AuditEvent where
  runId : String
  stepId : Option String
  eventType : EventType
  occurredAt : Timestamp
  previousState : AggregateState
  newState : AggregateState
  previousRevision : ℕ
  revision : ℕ
  attemptId : Option String := none
  attemptNo : Option ℕ := none
  phase : Option ToolExecutionPhase := none
  errorClass : Option ErrorClass := none
  summary : Value := .none

namespace AuditEvent

def runStateChanged (runId : String) (previousState newState : RunState)
    (occurredAt : Timestamp) (previousRevision revision : ℕ) : AuditEvent where
  runId := runId
  stepId := none
  eventType := .runStateChanged
  occurredAt := occurredAt
  previousState := .run previousState
  newState := .run newState
  previousRevision := previousRevision
  revision := revision

def stepStateChanged (runId stepId : String) (previousState newState : StepState)
    (occurredAt : Timestamp) (previousRevision revision : ℕ) : AuditEvent where
  runId := runId
  stepId := some stepId
  eventType := .stepStateChanged
  occurredAt := occurredAt
  previousState := .step previousState
  newState := .step newState
  previousRevision := previousRevision
  revision := revision

def toolAttemptStarted (runId stepId attemptId : String) (attemptNo : ℕ)
    (phase : ToolExecutionPhase) (occurredAt : Timestamp) (state : StepState) (revision : ℕ) :
    AuditEvent where
  runId := runId
  stepId := some stepId
  eventType := .toolAttemptStarted
  occurredAt := occurredAt
  previousState := .step state
  newState := .step state
  previousRevision := revision
  revision := revision
  attemptId := some attemptId
  attemptNo := some attemptNo
  phase := some phase
  summary := .ofFields [("status", .str "running")]

def toolAttemptCompleted (runId stepId attemptId : String) (attemptNo : ℕ)
    (phase : ToolExecutionPhase) (occurredAt : Timestamp) (state : StepState) (revision : ℕ)
    (errorClass : Option ErrorClass) (summary : Value) : AuditEvent where
  runId := runId
  stepId := some stepId
  eventType := .toolAttemptCompleted
  occurredAt := occurredAt
  previousState := .step state
  newState := .step state
  previousRevision := revision
  revision := revision
  attemptId := some attemptId
  attemptNo := some attemptNo
  phase := some phase
  errorClass := errorClass
  summary := summary

/-- `approval_changed`; `details` are the optional entries of the summary, which
follow the request's identity and status. -/
def approvalChanged (runId stepId : String) (eventType : EventType) (occurredAt : Timestamp)
    (previousState newState : RunState) (previousRevision revision : ℕ)
    (requestId bindingDigest status : String) (details : List (String × Value)) :
    AuditEvent where
  runId := runId
  stepId := some stepId
  eventType := eventType
  occurredAt := occurredAt
  previousState := .run previousState
  newState := .run newState
  previousRevision := previousRevision
  revision := revision
  summary := .ofFields <|
    [("request_id", .str requestId), ("binding_digest", .str bindingDigest),
      ("status", .str status)] ++ details

@[simp] theorem toolAttemptStarted_runId (runId stepId attemptId : String) (attemptNo : ℕ)
    (phase : ToolExecutionPhase) (occurredAt : Timestamp) (state : StepState) (revision : ℕ) :
    (toolAttemptStarted runId stepId attemptId attemptNo phase occurredAt state revision).runId =
      runId := rfl

@[simp] theorem approvalChanged_runId (runId stepId : String) (eventType : EventType)
    (occurredAt : Timestamp) (previousState newState : RunState)
    (previousRevision revision : ℕ) (requestId bindingDigest status : String)
    (details : List (String × Value)) :
    (approvalChanged runId stepId eventType occurredAt previousState newState previousRevision
      revision requestId bindingDigest status details).runId = runId := rfl

/-- The request an approval event is about. -/
def requestId? (event : AuditEvent) : Option String :=
  match event.summary with
  | .dict ((.str "request_id", .str requestId) :: _) => some requestId
  | _ => none

@[simp] theorem requestId?_approvalChanged (runId stepId : String) (eventType : EventType)
    (occurredAt : Timestamp) (previousState newState : RunState)
    (previousRevision revision : ℕ) (requestId bindingDigest status : String)
    (details : List (String × Value)) :
    (approvalChanged runId stepId eventType occurredAt previousState newState previousRevision
      revision requestId bindingDigest status details).requestId? = some requestId := rfl

end AuditEvent

end ChangePilot
