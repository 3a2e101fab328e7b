import ChangePilot.Application.CoordinatorUnits

/-!
# Starting and finishing attempts

The preparation of an attempt, the unit of work that records its start, and the
one that records its outcome and moves the step and the run on.
-/

namespace ChangePilot

/-! ## Preparation -/

/-- The tool that a phase of a step runs. -/
def toolReferenceOf (step : StepDefinition) : ToolExecutionPhase → Option ToolReference
  | .forward => some step.tool
  | _ => step.compensationTool

/-- One more than the greatest attempt number of the phase. -/
def nextAttemptNo (attempts : List StepAttempt) (phase : ToolExecutionPhase) : ℕ :=
  ((attempts.filter fun attempt => attempt.phase = phase).map StepAttempt.attemptNo).foldl max 0 + 1

/-- The bounds of a running maximum. -/
theorem foldl_max_le_iff {numbers : List ℕ} {bound : ℕ} : ∀ {start : ℕ},
    numbers.foldl max start ≤ bound ↔ start ≤ bound ∧ ∀ n ∈ numbers, n ≤ bound := by
  induction numbers with
  | nil => simp
  | cons n rest ih =>
      intro start
      rw [List.foldl_cons, ih, max_le_iff, List.forall_mem_cons, and_assoc]

theorem nextAttemptNo_le_iff {attempts : List StepAttempt} {phase : ToolExecutionPhase} {n : ℕ} :
    nextAttemptNo attempts phase ≤ n + 1 ↔
      ∀ a ∈ attempts, a.phase = phase → a.attemptNo ≤ n := by
  simp only [nextAttemptNo, Nat.add_le_add_iff_right, foldl_max_le_iff, Nat.zero_le, true_and,
    List.forall_mem_map, List.mem_filter, decide_eq_true_eq, and_imp]

/-- A new attempt has a greater number than those there are. -/
theorem lt_nextAttemptNo {attempts : List StepAttempt} {phase : ToolExecutionPhase}
    {attempt : StepAttempt} (hmem : attempt ∈ attempts) (hphase : attempt.phase = phase) :
    attempt.attemptNo < nextAttemptNo attempts phase :=
  Nat.lt_succ_of_le (nextAttemptNo_le_iff.mp (le_refl _) attempt hmem hphase)

/-- What `_prepare_attempt` reads: the run and the step must exist. -/
def readForAttempt (store : MemoryStore) (runId stepId : String) :
    Except Error (List StepAttempt) := do
  let some _ := store.runs.get runId | throw (unknownRun runId)
  let some _ := store.getStep runId stepId | throw (unknownStep runId stepId)
  return store.listStepAttempts runId stepId

/-- The rest of `_prepare_attempt`, for the attempts it has read. -/
def prepareAttempt (cfg : Deployment) (runId : String) (step : StepDefinition)
    (phase : ToolExecutionPhase) (attempts : List StepAttempt) (startedAt : Timestamp)
    (attemptId : String) : Except Error PreparedAttempt := do
  let some toolReference := toolReferenceOf step phase
    | throw (.runtimeError s!"step {step.id} has no compensation tool")
  let descriptor ← cfg.registry.descriptorFor toolReference.name toolReference.version
  let arguments ← cfg.registry.coerceArguments cfg.runtime toolReference.name
    toolReference.version step.arguments
  let attemptNo := nextAttemptNo attempts phase
  let key ← logicalIdempotencyKey cfg.runtime runId step.id toolReference.name
    toolReference.version phase
  let deadline ← startedAt.addSeconds (.finite descriptor.defaultTimeoutSeconds)
  let context ← ToolExecutionContext.new cfg.runtime {
    runId := runId, stepId := step.id, attemptNumber := attemptNo, phase := phase
    logicalIdempotencyKey := key, deadline := deadline }
  return {
    step := step
    attempt := {
      runId := runId, stepId := step.id, attemptNo := attemptNo, phase := phase
      attemptId := attemptId, status := .running, idempotencyKey := key, startedAt := startedAt }
    context := context
    arguments := arguments
    sensitivePaths := descriptor.sensitiveArgumentPaths }

/-- Where the tool accepts the arguments and there is a key, an attempt can be prepared as
long as the instant of its deadline can be told. -/
theorem exists_prepareAttempt_iff {cfg : Deployment} {runId : String} {step : StepDefinition}
    {phase : ToolExecutionPhase} {reference : ToolReference} {descriptor : ToolDescriptor}
    {arguments : Value} {key : String}
    (hreference : toolReferenceOf step phase = some reference)
    (hdescriptor : cfg.registry.descriptorFor reference.name reference.version = .ok descriptor)
    (harguments : cfg.registry.coerceArguments cfg.runtime reference.name reference.version
      step.arguments = .ok arguments)
    (hkey : logicalIdempotencyKey cfg.runtime runId step.id reference.name reference.version
      phase = .ok key)
    (hnonblank : cfg.runtime.isBlank key = false) (attempts : List StepAttempt)
    (startedAt : Timestamp) (attemptId : String) :
    (∃ prepared, prepareAttempt cfg runId step phase attempts startedAt attemptId =
      .ok prepared) ↔ startedAt.Reaches (.finite descriptor.defaultTimeoutSeconds) := by
  obtain ⟨hrunId, hstepId⟩ := nonblank_of_logicalIdempotencyKey hkey
  simp only [prepareAttempt, hreference, Except.bind_of_eq_ok hdescriptor,
    Except.bind_of_eq_ok harguments, Except.bind_of_eq_ok hkey, Except.bind_eq_ok_iff,
    Except.pure_eq_ok_iff, Timestamp.reaches_iff]
  constructor
  · rintro ⟨_, deadline, hdeadline, _⟩
    exact ⟨deadline, hdeadline⟩
  · rintro ⟨deadline, hdeadline⟩
    exact ⟨_, deadline, hdeadline, _, ToolExecutionContext.new_isOk hrunId hstepId hnonblank, rfl⟩

/-! ## The start of an attempt -/

/-- The state that the run must be in when an attempt starts; a pending run starts
to run with its first forward attempt. -/
def enterExecution (run : WorkflowRun) (attempt : StepAttempt) : UowM Unit := do
  if attempt.phase = .forward ∧ run.state = .pending then
    let (runningRun, runEvent) ← run.transition .running attempt.startedAt
    UowM.saveRun runningRun run.revision
    UowM.appendEvent runEvent
  else if attempt.phase = .forward ∧ run.state ≠ .running then
    throw (.runtimeError "run is not in a forward execution state")
  else if attempt.phase = .compensation ∧ run.state ≠ .compensating then
    throw (.runtimeError "run is not compensating")

def commitAttemptStarted (attempt : StepAttempt) : UowM (Exit Unit) := do
  let run ← Tx.require (unknownRun attempt.runId) (← UowM.getRun attempt.runId)
  enterExecution run attempt
  let stepRun ← Tx.require (unknownStep attempt.runId attempt.stepId)
    (← UowM.getStep attempt.runId attempt.stepId)
  let activeStep ←
    if attempt.phase = .forward then do
      let (activeStep, stepEvent) ← stepRun.transition .running attempt.startedAt
      UowM.saveStep activeStep stepRun.revision
      UowM.appendEvent stepEvent
      pure activeStep
    else pure stepRun
  UowM.addAttempt attempt
  UowM.appendEvent <| .toolAttemptStarted attempt.runId attempt.stepId attempt.attemptId
    attempt.attemptNo attempt.phase attempt.startedAt activeStep.state activeStep.revision
  return .commit ()

/-! ## The outcome of an attempt -/

/-- The attempt with the outcome written into it. -/
def StepAttempt.completedWith (attempt : StepAttempt) (outcome : ExecutionOutcome)
    (completedAt : Timestamp) (nextAttemptAt : Option Timestamp) (redactedResult : Value) :
    StepAttempt :=
  { attempt with
    status := outcome.status
    effectApplied := outcome.effectApplied
    completedAt := some completedAt
    nextAttemptAt := nextAttemptAt
    result := redactedResult
    errorClass := outcome.errorClass
    errorMessage := outcome.errorMessage }

def completedEvent (attempt : StepAttempt) (stepRun : StepRun) (outcome : ExecutionOutcome)
    (completedAt : Timestamp) (redactedResult : Value) : AuditEvent :=
  .toolAttemptCompleted attempt.runId attempt.stepId attempt.attemptId attempt.attemptNo
    attempt.phase completedAt stepRun.state stepRun.revision outcome.errorClass
    (outcomeSummary outcome redactedResult)

@[simp] theorem completedEvent_runId (attempt : StepAttempt) (stepRun : StepRun)
    (outcome : ExecutionOutcome) (completedAt : Timestamp) (redactedResult : Value) :
    (completedEvent attempt stepRun outcome completedAt redactedResult).runId = attempt.runId :=
  rfl

@[simp] theorem StepAttempt.completedWith_runId (attempt : StepAttempt)
    (outcome : ExecutionOutcome) (completedAt : Timestamp) (nextAttemptAt : Option Timestamp)
    (redactedResult : Value) :
    (attempt.completedWith outcome completedAt nextAttemptAt redactedResult).runId =
      attempt.runId := rfl

/-- The completed compensations decide whether the run is compensated. -/
def persistCompensationOutcome (cfg : Deployment) (run : WorkflowRun)
    (definition : WorkflowDefinition) (stepRun : StepRun) (attempt : StepAttempt)
    (outcome : ExecutionOutcome) (completedAt : Timestamp) (sensitivePaths : List (List String)) :
    UowM Unit := do
  let redactedResult := redact cfg.runtime sensitivePaths outcome.result
  UowM.saveAttempt (attempt.completedWith outcome completedAt none redactedResult)
  UowM.appendEvent (completedEvent attempt stepRun outcome completedAt redactedResult)
  if outcome.status ≠ .success then
    let (manual, event) ← run.transition .manualIntervention completedAt
    UowM.saveRun { manual with compensationError := some outcome.errorInfo } run.revision
    UowM.appendEvent event
  else
    let pending ← (← UowM.read fun store => pendingCompensations definition
      (store.stepRuns run.runId definition) (store.listAttempts run.runId))
    if pending.isEmpty then
      let (compensated, event) ← run.transition .compensated completedAt
      UowM.saveRun compensated run.revision
      UowM.appendEvent event

/-- The step's next state and the instant of the next attempt. -/
def forwardResult (retry : RetryPolicy) (outcome : ExecutionOutcome) (completedAt : Timestamp) :
    Except Error (StepState × Option Timestamp) :=
  if outcome.status = .success then .ok (.succeeded, none)
  else if outcome.errorClass = some .retryable ∧ outcome.attemptNo < retry.maxAttempts then
    (completedAt.addSeconds retry.initialBackoffSeconds).map fun next => (.retryWait, some next)
  else if outcome.errorClass = some .resultUnknown then .ok (.resultUnknown, none)
  else .ok (.failed, none)

theorem forwardResult_spec {retry : RetryPolicy} {outcome : ExecutionOutcome}
    {completedAt : Timestamp} {nextState : StepState} {nextAttemptAt : Option Timestamp}
    (h : forwardResult retry outcome completedAt = .ok (nextState, nextAttemptAt)) :
    (outcome.status = .success ∧ nextState = .succeeded ∧ nextAttemptAt = none) ∨
      (outcome.status = .failed ∧
        ((outcome.errorClass = some .retryable ∧ outcome.attemptNo < retry.maxAttempts ∧
            nextState = .retryWait ∧ nextAttemptAt.isSome) ∨
          (outcome.errorClass = some .resultUnknown ∧ nextState = .resultUnknown ∧
            nextAttemptAt = none) ∨
          (outcome.errorClass ≠ some .resultUnknown ∧ nextState = .failed ∧
            nextAttemptAt = none))) := by
  unfold forwardResult at h
  rcases outcome.status_eq with hstatus | hstatus <;> rw [hstatus] at h ⊢
  · simp_all
  · simp only [reduceCtorEq, if_false] at h
    refine Or.inr ⟨rfl, ?_⟩
    split at h
    case isTrue hretry =>
      cases hnext : completedAt.addSeconds retry.initialBackoffSeconds with
      | error e => simp [hnext, Except.map] at h
      | ok next =>
          simp only [hnext, Except.map, Except.ok.injEq, Prod.mk.injEq] at h
          exact Or.inl ⟨hretry.1, hretry.2, h.1.symm, by simp [← h.2]⟩
    case isFalse => split at h <;> simp_all

/-- One more than the greatest completion sequence of the run's steps. -/
def nextCompletionSequence (stepRuns : List StepRun) : ℕ :=
  (stepRuns.map fun stepRun => stepRun.completionSequence.getD 0).foldl max 0 + 1

/-- Whether all steps but `stepId` have succeeded. -/
def allOthersSucceeded (store : MemoryStore) (runId stepId : String)
    (steps : List StepDefinition) : Except Error Bool := do
  let someOtherOpen ← anyStep store runId
    (fun state _ => state ≠ .succeeded)
    (steps.filter fun step => step.id ≠ stepId)
  return !someOtherOpen

/-- What a forward outcome does to its run: the last success completes it, a
failure starts the compensation of the effects there are. -/
def settleRun (run : WorkflowRun) (definition : WorkflowDefinition) (nextState : StepState)
    (outcome : ExecutionOutcome) (completedAt : Timestamp) : UowM Unit := do
  if run.state = .running ∧ nextState = .succeeded then
    if ← (← UowM.read fun store =>
        allOthersSucceeded store outcome.runId outcome.stepId definition.steps) then
      let (succeededRun, runEvent) ← run.transition .succeeded completedAt
      UowM.saveRun succeededRun run.revision
      UowM.appendEvent runEvent
  else if run.state = .running ∧ nextState = .failed then
    let effects ← (← UowM.read fun store => compensationOrder definition
      (store.stepRuns outcome.runId definition) (store.listAttempts outcome.runId))
    let (failedRun, runEvent) ←
      run.transition (if effects.isEmpty then .failed else .compensating) completedAt
    UowM.saveRun { failedRun with originalError := some outcome.errorInfo } run.revision
    UowM.appendEvent runEvent

/-- The forward part of `_persist_outcome`. -/
def persistForwardOutcome (cfg : Deployment) (run : WorkflowRun)
    (definition : WorkflowDefinition) (stepDefinition : StepDefinition) (stepRun : StepRun)
    (attempt : StepAttempt) (outcome : ExecutionOutcome) (completedAt : Timestamp)
    (sensitivePaths : List (List String)) : UowM Unit := do
  let (nextState, nextAttemptAt) ← forwardResult stepDefinition.retry outcome completedAt
  let (changedStep, event) ← stepRun.transition nextState completedAt
  let redactedResult := redact cfg.runtime sensitivePaths outcome.result
  let stepRuns ← UowM.read fun store => store.stepRuns outcome.runId definition
  let changedStep :=
    if nextState = .succeeded then
      { changedStep with
        completionSequence := some (nextCompletionSequence stepRuns)
        logicalIdempotencyKey := some attempt.idempotencyKey }
    else changedStep
  UowM.saveStep changedStep stepRun.revision
  UowM.saveAttempt (attempt.completedWith outcome completedAt nextAttemptAt redactedResult)
  UowM.appendEvent event
  UowM.appendEvent (completedEvent attempt changedStep outcome completedAt redactedResult)
  settleRun run definition nextState outcome completedAt

/-- `_persist_outcome`.  The attempt is the first with the outcome's number,
whatever its phase.  Answers whether a forward result is unknown, which the
coordinator remembers. -/
def persistOutcome (cfg : Deployment) (outcome : ExecutionOutcome) (completedAt : Timestamp)
    (sensitivePaths : List (List String)) : UowM (Exit Bool) := do
  let run ← Tx.require (unknownRun outcome.runId) (← UowM.getRun outcome.runId)
  let definition ← Tx.require (unknownDefinition run) (← UowM.definitionOf run)
  let stepDefinition ← Tx.require .stopIteration
    (definition.steps.find? fun step => step.id = outcome.stepId)
  let stepRun ← Tx.require (unknownStep outcome.runId outcome.stepId)
    (← UowM.getStep outcome.runId outcome.stepId)
  let attempts ← UowM.listStepAttempts outcome.runId outcome.stepId
  let attempt ← Tx.require .stopIteration
    (attempts.find? fun attempt => attempt.attemptNo = outcome.attemptNo)
  if attempt.phase = .compensation then
    persistCompensationOutcome cfg run definition stepRun attempt outcome completedAt
      sensitivePaths
    return .commit false
  else
    persistForwardOutcome cfg run definition stepDefinition stepRun attempt outcome completedAt
      sensitivePaths
    return .commit (outcome.errorClass = some .resultUnknown)

/-! ## The end of compensation -/

/-- The unit of work of `_run_compensation_once` when nothing is pending. -/
def completeCompensation (runId : String) (occurredAt : Timestamp) : UowM (Exit Unit) := do
  let some run ← UowM.getRun runId | return .leave ()
  if run.state ≠ .compensating then return .leave ()
  let (compensated, event) ← run.transition .compensated occurredAt
  UowM.saveRun compensated run.revision
  UowM.appendEvent event
  return .commit ()

end ChangePilot
