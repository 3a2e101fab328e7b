import ChangePilot.Application.Approvals

/-!
# The coordinator's units of work

Each function of the coordinator that opens a unit of work to change the store,
and the pure parts of a turn: the approval snapshot and the preparation of an
attempt.
-/

namespace ChangePilot

/-! ## Reports -/

/-- The texts of `blocked_reason`. -/
inductive BlockedReason where
  | coordinatorClosed | noRunSelected | runTerminal
  | approvalRecoveryRequired | compensationRecoveryRequired | internalConsistency
  | runNotForward | resultUnknown | capacity | retryBackoff | inFlight
  | approvalDraining | approvalPending | compensationDraining
  deriving DecidableEq, Repr

structure CoordinationReport where
  runId : Option String
  dispatched : List String := []
  completed : List String := []
  blockedReason : Option BlockedReason := none
  deriving DecidableEq, Repr

/-! ## Requests in flight -/

/-- A prepared attempt with the request it is dispatched with. -/
structure PreparedAttempt where
  step : StepDefinition
  attempt : StepAttempt
  context : ToolExecutionContext
  arguments : Value
  sensitivePaths : List (List String)

inductive FutureState where
  | pending
  | done (outcome : Except ToolException ToolExecutionResult)
  | cancelled

/-- A submitted request; `id` stands for the identity of its future. -/
structure OwnedFuture where
  id : ℕ
  context : ToolExecutionContext
  sensitivePaths : List (List String)
  state : FutureState := .pending
  outcomePersisted : Bool := false

/-- `future.done()`. -/
def FutureState.Done : FutureState → Bool
  | pending => false
  | done _ | cancelled => true

/-- A request of the run whose outcome is not recorded yet. -/
def OwnedFuture.Unpersisted (runId : String) (owned : OwnedFuture) : Prop :=
  owned.context.runId = runId ∧ owned.outcomePersisted = false

instance (runId : String) (owned : OwnedFuture) : Decidable (owned.Unpersisted runId) :=
  inferInstanceAs (Decidable (_ ∧ _))

/-! ## Outcomes -/

def failedOutcome (context : ToolExecutionContext) (errorClass : ErrorClass)
    (safeMessage : String) : ExecutionOutcome :=
  ⟨context.runId, context.stepId, context.attemptNumber, .failed errorClass safeMessage⟩

def classifyToolException : ToolException → ErrorClass
  | .domainError errorClass => errorClass
  | .timeoutError | .connectionError => .resultUnknown
  | .other => .permanent

/-- The outcome of a call that raised. -/
def raisedOutcome (context : ToolExecutionContext) (exception : ToolException) :
    ExecutionOutcome :=
  let errorClass := classifyToolException exception
  failedOutcome context errorClass
    (if errorClass = .resultUnknown then "tool result unknown" else "tool execution failed")

/-- `_execute_request`, for the way in which the tool's call ends. -/
def executeRequest (context : ToolExecutionContext) :
    Except ToolException ToolExecutionResult → ExecutionOutcome
  | .ok result => ⟨context.runId, context.stepId, context.attemptNumber,
      .success result.effectApplied result.output⟩
  | .error exception => raisedOutcome context exception

/-- `_outcome_from_future` for a future that is done; the result of a cancelled
one raises `CancelledError`. -/
def outcomeFromFuture (owned : OwnedFuture) : Option ExecutionOutcome :=
  match owned.state with
  | .pending => none
  | .done ending => some (executeRequest owned.context ending)
  | .cancelled => some (raisedOutcome owned.context .other)

/-! ## Promotion -/

/-- The loop of `_promote_due_retries`; answers `changed`. -/
def promoteDueSteps (runId : String) (now occurredAt : Timestamp) :
    List StepDefinition → UowM Bool
  | [] => return false
  | step :: rest => do
      match ← UowM.getStep runId step.id with
      | none => promoteDueSteps runId now occurredAt rest
      | some stepRun =>
          if stepRun.state ≠ .retryWait then promoteDueSteps runId now occurredAt rest
          else
            let attempts ← UowM.listStepAttempts runId step.id
            match attempts.getLast?.bind StepAttempt.nextAttemptAt with
            | none => promoteDueSteps runId now occurredAt rest
            | some nextAttemptAt =>
                if now < nextAttemptAt then promoteDueSteps runId now occurredAt rest
                else
                  let (ready, event) ← stepRun.transition .ready occurredAt
                  UowM.saveStep ready stepRun.revision
                  UowM.appendEvent event
                  let _ ← promoteDueSteps runId now occurredAt rest
                  return true

def commitIf (changed : Bool) : Exit Unit := if changed then .commit () else .leave ()

def promoteDueRetries (runId : String) (now occurredAt : Timestamp) : UowM (Exit Unit) := do
  let some run ← UowM.getRun runId | return .leave ()
  if run.state.Terminal then return .leave ()
  let some definition ← UowM.definitionOf run
    | return .leave ()
  let changed ← promoteDueSteps runId now occurredAt definition.steps
  return commitIf changed

/-- `tuple(uow.steps.get(run_id, step.id) for step in definition.steps)`, less
the missing rows. -/
def MemoryStore.stepRuns (store : MemoryStore) (runId : String)
    (definition : WorkflowDefinition) : List StepRun :=
  definition.steps.filterMap fun step => store.getStep runId step.id

/-- The loop of `_promote_dependency_ready_steps` over the ready steps. -/
def promotePendingSteps (stepRuns : List StepRun) (occurredAt : Timestamp) :
    List StepDefinition → UowM Bool
  | [] => return false
  | step :: rest => do
      let stepRun ← Tx.require .stopIteration
        (stepRuns.find? fun stepRun => stepRun.stepId = step.id)
      if stepRun.state ≠ .pending then promotePendingSteps stepRuns occurredAt rest
      else
        let (ready, event) ← stepRun.transition .ready occurredAt
        UowM.saveStep ready stepRun.revision
        UowM.appendEvent event
        let _ ← promotePendingSteps stepRuns occurredAt rest
        return true

def promoteDependencyReadySteps (runId : String) (occurredAt : Timestamp) :
    UowM (Exit Unit) := do
  let some run ← UowM.getRun runId | return .leave ()
  if run.state.Terminal then return .leave ()
  let some definition ← UowM.definitionOf run
    | return .leave ()
  let stepRuns ← UowM.read fun store => store.stepRuns runId definition
  let ready ← readySteps definition stepRuns
  let changed ← promotePendingSteps stepRuns occurredAt ready
  return commitIf changed

/-! ## Approval barrier -/

def requiresApproval (cfg : Deployment) (step : StepDefinition) : Except Error Bool := do
  let descriptor ← cfg.registry.descriptorFor step.tool.name step.tool.version
  return cfg.runtime.casefold step.risk == "high" || descriptor.risk == .high

/-- The redacted arguments, the binding digest and the risk reasons. -/
structure ApprovalSnapshot where
  redactedArguments : Value
  bindingDigest : Sha256Digest
  riskReasons : List String

def approvalSnapshot (cfg : Deployment) (definition : WorkflowDefinition)
    (step : StepDefinition) : Except Error ApprovalSnapshot := do
  let descriptor ← cfg.registry.descriptorFor step.tool.name step.tool.version
  let _ ← canonicalJsonValue step.arguments
  let redactedArguments ←
    if containsUnavailableSecretRef step.arguments then canonicalJsonValue step.arguments
    else do
      let coercedArguments ← cfg.registry.coerceArguments cfg.runtime step.tool.name
        step.tool.version step.arguments
      pure (redact cfg.runtime descriptor.sensitiveArgumentPaths coercedArguments)
  let redactedArguments ← canonicalJsonValue redactedArguments
  let bindingDigest ← approvalBindingDigest cfg.runtime definition.digest step.id
    step.tool.name step.tool.version redactedArguments
  return {
    redactedArguments := redactedArguments
    bindingDigest := bindingDigest
    riskReasons :=
      (if cfg.runtime.casefold step.risk == "high" then ["step_risk_high"] else []) ++
        (if descriptor.risk == .high then ["tool_risk_high"] else []) }

/-- The identity under which a step is approved. -/
def bindingOf (definition : WorkflowDefinition) (step : StepDefinition)
    (snapshot : ApprovalSnapshot) : Binding :=
  ⟨definition.digest, step.id, step.tool.name, step.tool.version, snapshot.bindingDigest.val⟩

/-- An approved request for the execution. -/
def ApprovalRequest.Approves (request : ApprovalRequest) (binding : Binding) : Prop :=
  request.status = .approved ∧ request.Matches binding

instance (request : ApprovalRequest) (binding : Binding) : Decidable (request.Approves binding) :=
  inferInstanceAs (Decidable (_ ∧ _))

/-- `_uow_has_persisted_recovery_work`, with the coordinator's own requests. -/
def uowHasPersistedRecoveryWork (ownedFutures : List OwnedFuture) (store : MemoryStore)
    (run : WorkflowRun) (definition : WorkflowDefinition) : Except Error Bool := do
  if ← approvalRecoveryRequired store run then return true
  let owned := ownedFutures.filter fun owned => owned.Unpersisted run.runId
  let ownedSteps := owned.map fun owned => owned.context.stepId
  let ownedAttempts := owned.map fun owned => (owned.context.stepId, owned.context.attemptNumber)
  if ← anyStep store run.runId (fun state stepId => state = .running ∧ stepId ∉ ownedSteps)
      definition.steps then return true
  return (store.listAttempts run.runId).any fun attempt =>
    attempt.status = .running ∧ (attempt.stepId, attempt.attemptNo) ∉ ownedAttempts

def hasPersistedRecoveryWork (ownedFutures : List OwnedFuture) (store : MemoryStore)
    (runId : String) : Except Error Bool := do
  let some run := store.runs.get runId | throw (unknownRun runId)
  let some definition := store.definitionOf run | throw (unknownDefinition run)
  uowHasPersistedRecoveryWork ownedFutures store run definition

/-- The loop over the run's requests: a request for another execution, if not yet
closed, is invalidated.  Answers the last pending request for this one. -/
def invalidateOthers (run : WorkflowRun) (binding : Binding) (occurredAt : Timestamp) :
    Option ApprovalRequest → List ApprovalRequest → UowM (Option ApprovalRequest)
  | matchingPending, [] => return matchingPending
  | matchingPending, request :: rest => do
      if request.status ≠ .pending ∧ request.status ≠ .approved then
        invalidateOthers run binding occurredAt matchingPending rest
      else if request.Matches binding then
        invalidateOthers run binding occurredAt
          (if request.status = .pending then some request else matchingPending) rest
      else
        UowM.saveApproval (request.invalidated occurredAt) request.version
        UowM.appendEvent <| .approvalChanged run.runId request.stepId .approvalInvalidated
          occurredAt run.state run.state run.revision run.revision request.id
          request.bindingDigest.val "invalidated" []
        invalidateOthers run binding occurredAt matchingPending rest

/-- The run waits, from now on or already. -/
def enterWaiting (run : WorkflowRun) (occurredAt : Timestamp) : UowM WorkflowRun := do
  if run.state ≠ .waitingApproval then
    let (changedRun, runEvent) ← run.transition .waitingApproval occurredAt
    UowM.saveRun changedRun run.revision
    UowM.appendEvent runEvent
    return changedRun
  else return run

/-- The new request for an execution. -/
def newRequest (runId : String) (definition : WorkflowDefinition) (step : StepDefinition)
    (snapshot : ApprovalSnapshot) (newId : String) (occurredAt : Timestamp) :
    ApprovalRequest where
  id := newId
  runId := runId
  definitionDigest := definition.digest
  stepId := step.id
  toolName := step.tool.name
  toolVersion := step.tool.version
  redactedArguments := snapshot.redactedArguments
  bindingDigest := snapshot.bindingDigest
  riskReasons := snapshot.riskReasons
  createdAt := occurredAt

def createdApprovalEvent (run changedRun : WorkflowRun) (request : ApprovalRequest)
    (occurredAt : Timestamp) : AuditEvent :=
  .approvalChanged request.runId request.stepId .approvalCreated occurredAt run.state
    changedRun.state run.revision changedRun.revision request.id request.bindingDigest.val
    "pending" [("arguments", request.redactedArguments)]

/-- `_establish_approval_barrier`; the unit of work is left without a commit when
recovery is due (`some`) or the step is approved (`none`). -/
def establishApprovalBarrier (cfg : Deployment) (ownedFutures : List OwnedFuture)
    (runId stepId newId : String) (occurredAt : Timestamp) :
    UowM (Exit (Option BlockedReason)) := do
  let run ← Tx.require (unknownRun runId) (← UowM.getRun runId)
  let definition ← Tx.require (unknownDefinition run) (← UowM.definitionOf run)
  if ← (← UowM.read fun store => uowHasPersistedRecoveryWork ownedFutures store run definition) then
    return .leave (some .approvalRecoveryRequired)
  let step ← Tx.require .stopIteration (definition.steps.find? fun step => step.id = stepId)
  let snapshot ← approvalSnapshot cfg definition step
  let binding := bindingOf definition step snapshot
  let approvals ← UowM.listApprovals runId
  if approvals.any fun request => request.Approves binding then return .leave none
  let matchingPending ← invalidateOthers run binding occurredAt none approvals
  let changedRun ← enterWaiting run occurredAt
  if matchingPending.isNone then
    let request := newRequest runId definition step snapshot newId occurredAt
    UowM.addApproval request
    UowM.appendEvent (createdApprovalEvent run changedRun request occurredAt)
  return .commit (some .approvalPending)

end ChangePilot
