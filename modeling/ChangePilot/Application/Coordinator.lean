import ChangePilot.Application.Operations

/-!
# The coordinator and the recovery service

`runOnce`, `close` and `recoverNonterminalRuns` as programs over the operations.
Between two operations of a program the surroundings may act: decisions,
cancellations, new runs, tools that finish, the clock.
-/

namespace ChangePilot

/-- A call of the coordinator or of recovery, which may raise. -/
abbrev Activity (α : Type) : Type := Routine Op (fun op => Except Error op.Ans) Error α

namespace Activity

def lift {α : Type} : Except Error α → Activity α
  | .ok a => pure a
  | .error error => throw error

def operation (op : Op) : Activity op.Ans := Routine.perform op

def isClosed : Activity Bool := operation .isClosed
def markClosed : Activity Unit := operation .markClosed
def now : Activity Timestamp := operation .now
def newIdentifier : Activity String := operation .newIdentifier
def selectRun : Activity (Option String) := operation .selectRun
def ownedFutures : Activity (List ℕ) := operation .ownedFutures
def collectFuture (id : ℕ) (now : Timestamp) : Activity CollectResult :=
  operation (.collectFuture id now)
def closeFuture (id : ℕ) : Activity Unit := operation (.closeFuture id)
def awaitFutures : Activity Unit := operation .awaitFutures
def availableCapacity : Activity ℕ := operation .availableCapacity
def hasUnpersistedOutcome (runId : String) : Activity Bool :=
  operation (.hasUnpersistedOutcome runId)
def isLocallyUnknown (runId : String) : Activity Bool := operation (.isLocallyUnknown runId)
def getRun (runId : String) : Activity (Option WorkflowRun) := operation (.getRun runId)
def hasPersistedRecoveryWork (runId : String) : Activity Bool :=
  operation (.hasPersistedRecoveryWork runId)
def loadDefinitionAndSteps (runId : String) : Activity (WorkflowDefinition × List StepRun) :=
  operation (.loadDefinitionAndSteps runId)
def listApprovals (runId : String) : Activity (List ApprovalRequest) :=
  operation (.listApprovals runId)
def listAttempts (runId : String) : Activity (List StepAttempt) :=
  operation (.listAttempts runId)
def readForAttempt (runId stepId : String) : Activity (List StepAttempt) :=
  operation (.readForAttempt runId stepId)
def promoteDueRetries (runId : String) (now : Timestamp) : Activity Unit :=
  operation (.promoteDueRetries runId now)
def promoteDependencyReadySteps (runId : String) : Activity Unit :=
  operation (.promoteDependencyReadySteps runId)
def establishApprovalBarrier (runId stepId : String) : Activity (Option BlockedReason) :=
  operation (.establishApprovalBarrier runId stepId)
def dispatch (prepared : PreparedAttempt) : Activity Bool := operation (.dispatch prepared)
def persistSubmissionFailure (prepared : PreparedAttempt) (errorClass : ErrorClass) :
    Activity Unit :=
  operation (.persistSubmissionFailure prepared errorClass)
def completeCompensation (runId : String) : Activity Unit :=
  operation (.completeCompensation runId)
def nonterminalRuns : Activity (List String) := operation .nonterminalRuns
def pendingRecovery (runId : String) : Activity (Option (List (String × StepAttempt))) :=
  operation (.pendingRecovery runId)
def recoverAttempt (runId stepId : String) (attempt : StepAttempt) : Activity Unit :=
  operation (.recoverAttempt runId stepId attempt)

end Activity

variable (cfg : Deployment)

/-! ## Collecting outcomes -/

/-- The loop of `_collect_outcomes` over the futures it has listed. -/
def collectEach (now : Timestamp) : List ℕ → Activity (List ExecutionOutcome × Bool)
  | [] => return ([], false)
  | id :: rest => do
      let result ← Activity.collectFuture id now
      let (persisted, persistenceFailed) ← collectEach now rest
      match result with
      | .skipped => return (persisted, persistenceFailed)
      | .persisted outcome => return (outcome :: persisted, persistenceFailed)
      | .failed => return (persisted, true)

def collectOutcomes : Activity (List ExecutionOutcome × Bool) := do
  let instant ← Activity.now
  let ids ← Activity.ownedFutures
  collectEach instant ids

def completedForRun (outcomes : List ExecutionOutcome) (runId : String) : List String :=
  (outcomes.filter fun outcome => outcome.runId = runId ∧ outcome.status = .success).map
    ExecutionOutcome.stepId

/-- A report of the turn for `runId` that has dispatched nothing. -/
def blocked (runId : String) (completed : List ExecutionOutcome) (reason : BlockedReason) :
    CoordinationReport where
  runId := runId
  completed := completedForRun completed runId
  blockedReason := some reason

/-! ## Starting attempts -/

/-- `_prepare_attempt`. -/
def prepare (runId : String) (step : StepDefinition) (phase : ToolExecutionPhase) :
    Activity PreparedAttempt := do
  let attempts ← Activity.readForAttempt runId step.id
  let startedAt ← Activity.now
  let attemptId ← Activity.newIdentifier
  Activity.lift (prepareAttempt cfg runId step phase attempts startedAt attemptId)

def prepareEach (runId : String) : List StepDefinition → Activity (List PreparedAttempt)
  | [] => return []
  | step :: rest => do
      let prepared ← prepare cfg runId step .forward
      let others ← prepareEach runId rest
      return prepared :: others

def isTerminal (run : Option WorkflowRun) : Bool := run.any fun run => run.state.Terminal

/-- The dispatch loop of `run_once`; answers the ids of the started steps. -/
def dispatchEach (runId : String) : List PreparedAttempt → Activity (List String)
  | [] => return []
  | prepared :: rest => do
      if ← Activity.dispatch prepared then
        let others ← dispatchEach runId rest
        return prepared.step.id :: others
      else
        Activity.persistSubmissionFailure prepared .retryable
        if isTerminal (← Activity.getRun runId) then return [prepared.step.id]
        let others ← dispatchEach runId rest
        return prepared.step.id :: others

/-- The report after a dispatch, with the outcomes collected at once. -/
def dispatchedReport (runId : String) (completed : List ExecutionOutcome)
    (dispatched : List String) : Activity CoordinationReport := do
  let (justCompleted, collectionFailed) ← collectOutcomes
  return {
    runId := runId
    dispatched := dispatched
    completed := completedForRun (completed ++ justCompleted) runId
    blockedReason := if collectionFailed then some .internalConsistency else none }

/-! ## The approval barrier -/

/-- `_handle_approval_barrier`: `none` if the step may be started. -/
def handleApprovalBarrier (runId : String) (definition : WorkflowDefinition)
    (step : StepDefinition) : Activity (Option BlockedReason) := do
  let snapshot ← Activity.lift (approvalSnapshot cfg definition step)
  if ← Activity.hasPersistedRecoveryWork runId then return some .approvalRecoveryRequired
  if ← Activity.hasUnpersistedOutcome runId then return some .approvalDraining
  let approvals ← Activity.listApprovals runId
  if approvals.any fun request => request.Approves (bindingOf definition step snapshot) then
    return none
  Activity.establishApprovalBarrier runId step.id

/-- The first step that needs an approval. -/
def findProtected : List StepDefinition → Except Error (Option StepDefinition)
  | [] => return none
  | step :: rest => do
      if ← requiresApproval cfg step then return some step
      findProtected rest

/-! ## Compensation -/

/-- `_run_compensation_once`. -/
def runCompensationOnce (runId : String) (completed : List ExecutionOutcome) :
    Activity CoordinationReport := do
  if ← Activity.hasPersistedRecoveryWork runId then
    return blocked runId completed .compensationRecoveryRequired
  if ← Activity.hasUnpersistedOutcome runId then
    return blocked runId completed .compensationDraining
  let (definition, stepRuns) ← Activity.loadDefinitionAndSteps runId
  let attempts ← Activity.listAttempts runId
  let compensable ← Activity.lift (compensationOrder definition stepRuns attempts)
  let pending ← Activity.lift (pendingCompensations definition stepRuns attempts)
  if compensable.isEmpty then return blocked runId completed .runNotForward
  match pending with
  | [] =>
      Activity.completeCompensation runId
      return blocked runId completed .runTerminal
  | step :: _ =>
      if (← Activity.availableCapacity) = 0 then return blocked runId completed .capacity
      let prepared ← prepare cfg runId step .compensation
      if ← Activity.dispatch prepared then
        dispatchedReport runId completed [prepared.step.id]
      else
        Activity.persistSubmissionFailure prepared .permanent
        return {
          runId := runId
          completed := completedForRun completed runId
          dispatched := [prepared.step.id] }

/-! ## One turn -/

/-- Why nothing can be dispatched, by the states read before. -/
def blockedWithout (run : Option WorkflowRun) (readyCandidates : List StepDefinition)
    (availableCapacity : ℕ) (stepRuns : List StepRun) : BlockedReason :=
  let anyIn (state : StepState) : Bool := stepRuns.any fun stepRun => stepRun.state = state
  if isTerminal run then .runTerminal
  else if readyCandidates ≠ [] ∧ availableCapacity = 0 then .capacity
  else if anyIn .retryWait then .retryBackoff
  else if anyIn .resultUnknown then .resultUnknown
  else if anyIn .running then .inFlight
  else .internalConsistency

/-- The end of `run_once`, for the candidates that fit the capacity. -/
def dispatchCandidates (runId : String) (completed : List ExecutionOutcome)
    (stepRuns : List StepRun) (capacity : ℕ) (readyCandidates : List StepDefinition) :
    Activity CoordinationReport := do
  let candidates := readyCandidates.take capacity
  if candidates.isEmpty then
    let run ← Activity.getRun runId
    return blocked runId completed (blockedWithout run readyCandidates capacity stepRuns)
  let preparedAttempts ← tryCatch (some <$> prepareEach cfg runId candidates) fun _ => pure none
  match preparedAttempts with
  | none => return blocked runId completed .internalConsistency
  | some preparedAttempts =>
      let dispatched ← dispatchEach runId preparedAttempts
      dispatchedReport runId completed dispatched

/-- The forward part of `run_once`. -/
def runForwardOnce (runId : String) (completed : List ExecutionOutcome) :
    Activity CoordinationReport := do
  let instant ← Activity.now
  Activity.promoteDueRetries runId instant
  Activity.promoteDependencyReadySteps runId
  let (definition, stepRuns) ← Activity.loadDefinitionAndSteps runId
  let capacity ← Activity.availableCapacity
  let ready ← Activity.lift (readySteps definition stepRuns)
  let readyCandidates := ready.filter fun step => stepStateIs stepRuns step.id [.ready]
  match ← Activity.lift (findProtected cfg readyCandidates) with
  | none => dispatchCandidates cfg runId completed stepRuns capacity readyCandidates
  | some protectedStep =>
      match ← handleApprovalBarrier cfg runId definition protectedStep with
      | some reason => return blocked runId completed reason
      | none => dispatchCandidates cfg runId completed stepRuns capacity [protectedStep]

/-- `run_once` for the selected run, whose record has been read. -/
def runSelected (runId : String) (selectedRun : Option WorkflowRun)
    (completed : List ExecutionOutcome) (collectionFailed : Bool) :
    Activity CoordinationReport := do
  match selectedRun with
  | none =>
      if collectionFailed then return blocked runId completed .internalConsistency
      runForwardOnce cfg runId completed
  | some run =>
      if run.state.Terminal then return blocked runId completed .runTerminal
      if run.state = .waitingApproval then
        if ← Activity.hasPersistedRecoveryWork runId then
          return blocked runId completed .approvalRecoveryRequired
      if run.state = .compensating then
        if collectionFailed then return blocked runId completed .internalConsistency
        runCompensationOnce cfg runId completed
      else if ¬ run.state.Forward then return blocked runId completed .runNotForward
      else if collectionFailed then return blocked runId completed .internalConsistency
      else if ← Activity.hasPersistedRecoveryWork runId then
        let locallyUnknown ← Activity.isLocallyUnknown runId
        return blocked runId completed
          (if locallyUnknown then .resultUnknown else .approvalRecoveryRequired)
      else runForwardOnce cfg runId completed

def runOnce : Activity CoordinationReport := do
  if ← Activity.isClosed then
    return { runId := none, blockedReason := some .coordinatorClosed }
  let (completed, collectionFailed) ← collectOutcomes
  match ← Activity.selectRun with
  | none => return { runId := none, blockedReason := some .noRunSelected }
  | some runId =>
      let selectedRun ← Activity.getRun runId
      runSelected cfg runId selectedRun completed collectionFailed

/-! ## Closing -/

def closeEach : List ℕ → Activity Unit
  | [] => return ()
  | id :: rest => do
      Activity.closeFuture id
      closeEach rest

/-- Collect once more; a failure to record an outcome is raised. -/
def collectOrRaise : Activity Unit := do
  let (_, persistenceFailed) ← collectOutcomes
  if persistenceFailed then
    throw (.outcomePersistenceError "outcome persistence failed during close")

def close (wait : Bool) : Activity Unit := do
  if (← Activity.isClosed) ∧ ¬ wait then return ()
  collectOrRaise
  if wait then
    Activity.awaitFutures
    collectOrRaise
  else
    let ids ← Activity.ownedFutures
    closeEach ids
  Activity.markClosed

/-! ## Recovery -/

def recoverEach (runId : String) : List (String × StepAttempt) → Activity Unit
  | [] => return ()
  | (stepId, attempt) :: rest => do
      Activity.recoverAttempt runId stepId attempt
      recoverEach runId rest

/-- `_recover_run`: whether anything was recovered. -/
def recoverRun (runId : String) : Activity Bool := do
  match ← Activity.pendingRecovery runId with
  | none => return false
  | some pending =>
      recoverEach runId pending
      return !pending.isEmpty

def recoverRuns : List String → Activity (List String)
  | [] => return []
  | runId :: rest => do
      let changed ← recoverRun runId
      let recovered ← recoverRuns rest
      return if changed then runId :: recovered else recovered

def recoverNonterminalRuns : Activity (List String) := do
  let runIds ← Activity.nonterminalRuns
  recoverRuns runIds

end ChangePilot
