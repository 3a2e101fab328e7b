import ChangePilot.Application.AttemptUnits

/-!
# Recovery's units of work

Which attempt of a step is unresolved, the decision that a probe leads to, and
the unit of work that records the decision.
-/

namespace ChangePilot

/-- The answer of a tool's probe: a result, or `none` when the probe raises. -/
abbrev ProbeAnswers := RecoveryQuery → Option ToolProbeResult

/-! ## Unresolved attempts -/

/-- `(item.attempt_no, item.phase)`. -/
def StepAttempt.recoveryKey (attempt : StepAttempt) : ℕ ×ₗ String :=
  toLex (attempt.attemptNo, attempt.phase.value)

/-- The unresolved one among the attempts of a step. -/
def unresolvedAmong (stepRun : StepRun) (attempts : List StepAttempt) : Option StepAttempt :=
  let unresolved := attempts.filter fun attempt => attempt.status = .running
  if unresolved ≠ [] then unresolved.argmax StepAttempt.recoveryKey
  else if stepRun.state = .resultUnknown then attempts.argmax StepAttempt.recoveryKey
  else none

/-- It is the greatest of the running attempts, or of all attempts when none runs and
the step's result is unknown. -/
theorem unresolvedAmong_spec {row : StepRun} {attempts : List StepAttempt} {a : StepAttempt}
    (h : unresolvedAmong row attempts = some a) :
    a ∈ attempts ∧
      ((a.status = .running ∧
          ∀ b ∈ attempts, b.status = .running → b.recoveryKey ≤ a.recoveryKey) ∨
        ((∀ b ∈ attempts, b.status ≠ .running) ∧ row.state = .resultUnknown ∧
          ∀ b ∈ attempts, b.recoveryKey ≤ a.recoveryKey)) := by
  simp only [unresolvedAmong] at h
  split at h
  case isTrue =>
    obtain ⟨hmem, hrunning⟩ : a ∈ attempts ∧ a.status = .running := by
      simpa using List.argmax_mem h
    exact ⟨hmem, Or.inl ⟨hrunning, fun b hb hstatus =>
      List.le_of_mem_argmax (by simp [hb, hstatus]) h⟩⟩
  case isFalse hnone =>
    have hidle : ∀ b ∈ attempts, b.status ≠ .running := by simpa using hnone
    split at h
    case isTrue hstate =>
      exact ⟨List.argmax_mem h, Or.inr ⟨hidle, hstate, fun b hb => List.le_of_mem_argmax hb h⟩⟩
    case isFalse => simp at h

/-- `_unresolved_attempt`. -/
def unresolvedAttempt (store : MemoryStore) (runId stepId : String) :
    Except Error (Option StepAttempt) :=
  match store.getStep runId stepId with
  | none => .error (unknownStep runId stepId)
  | some stepRun => .ok (unresolvedAmong stepRun (store.listStepAttempts runId stepId))

/-- The unresolved attempts of the steps, in the order of the definition. -/
def unresolvedAttempts (store : MemoryStore) (runId : String) :
    List StepDefinition → Except Error (List (String × StepAttempt))
  | [] => .ok []
  | step :: rest => do
      let attempt ← unresolvedAttempt store runId step.id
      let others ← unresolvedAttempts store runId rest
      return (attempt.toList.map fun attempt => (step.id, attempt)) ++ others

/-- The attempts listed are those that are unresolved, by step; every step must have a
row. -/
theorem unresolvedAttempts_eq_ok_iff {store : MemoryStore} {runId : String}
    {steps : List StepDefinition} : ∀ {pending : List (String × StepAttempt)},
    unresolvedAttempts store runId steps = .ok pending ↔
      (∀ step ∈ steps, (store.getStep runId step.id).isSome) ∧
        (steps.filterMap fun step => (store.getStep runId step.id).bind fun stepRun =>
          (unresolvedAmong stepRun (store.listStepAttempts runId step.id)).map fun attempt =>
            (step.id, attempt)) = pending := by
  induction steps with
  | nil => intro pending; simp [unresolvedAttempts]
  | cons step rest ih =>
      intro pending
      cases hrow : store.getStep runId step.id with
      | none => simp [unresolvedAttempts, unresolvedAttempt, hrow, bind, Except.bind]
      | some stepRun =>
          cases hunresolved : unresolvedAmong stepRun (store.listStepAttempts runId step.id) <;>
            simp [unresolvedAttempts, unresolvedAttempt, hrow, ih, hunresolved, and_assoc]

/-- They are listed in the order of the steps, at most one for each. -/
theorem unresolvedAttempts_sublist {store : MemoryStore} {runId : String}
    {steps : List StepDefinition} : ∀ {pending : List (String × StepAttempt)},
    unresolvedAttempts store runId steps = .ok pending →
      (pending.map Prod.fst).Sublist (steps.map StepDefinition.id) := by
  induction steps with
  | nil =>
      intro pending h
      obtain rfl : [] = pending := Except.ok.inj h
      exact .slnil
  | cons step rest ih =>
      intro pending h
      simp only [unresolvedAttempts, Except.bind_eq_ok_iff, Except.pure_eq_ok_iff] at h
      obtain ⟨attempt, _, others, hothers, rfl⟩ := h
      cases attempt with
      | none => exact (ih hothers).cons _
      | some attempt => exact (ih hothers).cons_cons _

/-- What `_recover_run` reads first: `none` if the run is gone or terminal. -/
def pendingRecovery (store : MemoryStore) (runId : String) :
    Except Error (Option (List (String × StepAttempt))) :=
  match store.runs.get runId with
  | none => .ok none
  | some run =>
      if run.state.Terminal then .ok none
      else
        match store.definitionOf run with
        | none => .error (unknownDefinition run)
        | some definition => (unresolvedAttempts store runId definition.steps).map some

/-- The runs that are not terminal, by id. -/
def nonterminalRuns (store : MemoryStore) : List String :=
  (store.listRuns.filter fun run => ¬ run.state.Terminal).map WorkflowRun.runId

/-! ## Probing -/

/-- What a probe's result is worth: a found output must pass its own model. -/
def acceptedProbe (cfg : Deployment) (tool : ToolReference) :
    Option ToolProbeResult → Option ToolProbeResult
  | some (.found output) =>
      match cfg.registry.validateOutput cfg.runtime tool.name tool.version output with
      | .ok _ => some (.found output)
      | .error _ => none
  | answer => answer

/-- `_probe`.  The tool is looked up outside the handler, so that an unknown tool
raises; whatever fails later counts as no answer. -/
def probe (cfg : Deployment) (answers : ProbeAnswers) (step : StepDefinition)
    (attempt : StepAttempt) (now : Timestamp) : Except Error (Option ToolProbeResult) := do
  let some toolReference := toolReferenceOf step attempt.phase | return none
  let descriptor ← cfg.registry.descriptorFor toolReference.name toolReference.version
  if descriptor.idempotency = .none then return none
  let .ok deadline := now.addSeconds (.finite descriptor.defaultTimeoutSeconds) | return none
  if cfg.runtime.isBlank attempt.runId ∨ cfg.runtime.isBlank attempt.stepId ∨
      cfg.runtime.isBlank attempt.idempotencyKey then return none
  return acceptedProbe cfg toolReference <| answers {
    runId := attempt.runId, stepId := attempt.stepId, phase := attempt.phase
    logicalIdempotencyKey := attempt.idempotencyKey, deadline := deadline }

/-! ## Decisions -/

def recoveryEvent (eventType : EventType) (stepRun : StepRun) (attempt : StepAttempt)
    (occurredAt : Timestamp) (decision : String) : AuditEvent where
  runId := attempt.runId
  stepId := some attempt.stepId
  eventType := eventType
  occurredAt := occurredAt
  previousState := .step stepRun.state
  newState := .step stepRun.state
  previousRevision := stepRun.revision
  revision := stepRun.revision
  attemptId := some attempt.attemptId
  attemptNo := some attempt.attemptNo
  phase := some attempt.phase
  summary := .ofFields
    [("decision", .str decision), ("idempotency_key", .str attempt.idempotencyKey)]

def StepAttempt.applied (attempt : StepAttempt) (occurredAt : Timestamp) (result : Value) :
    StepAttempt :=
  { attempt with
    status := .succeeded
    effectApplied := true
    completedAt := some occurredAt
    nextAttemptAt := none
    result := result
    errorClass := none
    errorMessage := none }

/-- The attempt after a decision that leaves its error as it is. -/
def StepAttempt.closed (attempt : StepAttempt) (status : AttemptStatus)
    (occurredAt : Timestamp) : StepAttempt :=
  { attempt with status := status, completedAt := some occurredAt, nextAttemptAt := none }

@[simp] theorem recoveryEvent_runId (eventType : EventType) (stepRun : StepRun)
    (attempt : StepAttempt) (occurredAt : Timestamp) (decision : String) :
    (recoveryEvent eventType stepRun attempt occurredAt decision).runId = attempt.runId := rfl

@[simp] theorem StepAttempt.applied_runId (attempt : StepAttempt) (occurredAt : Timestamp)
    (result : Value) : (attempt.applied occurredAt result).runId = attempt.runId := rfl

@[simp] theorem StepAttempt.closed_runId (attempt : StepAttempt) (status : AttemptStatus)
    (occurredAt : Timestamp) : (attempt.closed status occurredAt).runId = attempt.runId := rfl

/-- A forward decision moves the step, a decision about a compensation does not. -/
def moveStep (stepRun : StepRun) (phase : ToolExecutionPhase) (target : StepState)
    (occurredAt : Timestamp) : UowM StepRun := do
  if phase = .forward then
    let (moved, event) ← stepRun.transition target occurredAt
    UowM.saveStep moved stepRun.revision
    UowM.appendEvent event
    return moved
  else return stepRun

/-- The state that an effect found by recovery moves its run to. -/
def targetAfterApplied (store : MemoryStore) (run : WorkflowRun)
    (definition : WorkflowDefinition) (stepId : String) (phase : ToolExecutionPhase) :
    Except Error (Option RunState) := do
  if run.state = .compensating ∧ phase = .compensation then
    let pending ← pendingCompensations definition (store.stepRuns run.runId definition)
      (store.listAttempts run.runId)
    if pending.isEmpty then return some .compensated
  if run.state = .compensating ∧ phase = .forward then return some .compensated
  if run.state = .running then
    if ← allOthersSucceeded store run.runId stepId definition.steps then
      return some .succeeded
  return none

/-- `_run_after_applied`. -/
def runAfterApplied (store : MemoryStore) (run : WorkflowRun) (definition : WorkflowDefinition)
    (stepId : String) (phase : ToolExecutionPhase) (occurredAt : Timestamp) :
    Except Error (Option (WorkflowRun × AuditEvent)) := do
  match ← targetAfterApplied store run definition stepId phase with
  | none => return none
  | some target => return some (← run.transition target occurredAt)

/-- Save the changed run, if it has changed, with its event. -/
def saveChangedRun (run : WorkflowRun) : Option (WorkflowRun × AuditEvent) → UowM Unit
  | none => return ()
  | some (changedRun, runEvent) => do
      UowM.saveRun changedRun run.revision
      UowM.appendEvent runEvent

def persistApplied (cfg : Deployment) (run : WorkflowRun) (definition : WorkflowDefinition)
    (step : StepDefinition) (stepRun : StepRun) (attempt : StepAttempt) (output : Value)
    (occurredAt : Timestamp) : UowM Unit := do
  let toolReference ← Tx.require
    (.runtimeError s!"step {attempt.stepId} has no compensation tool")
    (toolReferenceOf step attempt.phase)
  let descriptor ← cfg.registry.descriptorFor toolReference.name toolReference.version
  UowM.saveAttempt <| attempt.applied occurredAt
    (redact cfg.runtime descriptor.sensitiveArgumentPaths output)
  let completedStep ← moveStep stepRun attempt.phase .succeeded occurredAt
  let changedRun ← (← UowM.read fun store =>
    runAfterApplied store run definition completedStep.stepId attempt.phase occurredAt)
  saveChangedRun run changedRun
  UowM.appendEvent (recoveryEvent .recoveryApplied completedStep attempt occurredAt "applied")

def persistNotApplied (stepRun : StepRun) (attempt : StepAttempt) (occurredAt : Timestamp) :
    UowM Unit := do
  let readyStep ← moveStep stepRun attempt.phase .ready occurredAt
  UowM.saveAttempt (attempt.closed .notApplied occurredAt)
  UowM.appendEvent
    (recoveryEvent .recoveryNotApplied readyStep attempt occurredAt "not_applied")

/-- What a run remembers of a compensation that recovery cannot prove. -/
def unprovenCompensation : ErrorInfo :=
  ⟨.resultUnknown, "compensation result cannot be proven"⟩

def persistManualIntervention (run : WorkflowRun) (stepRun : StepRun) (attempt : StepAttempt)
    (occurredAt : Timestamp) : UowM Unit := do
  let manualStep ← moveStep stepRun attempt.phase .manualIntervention occurredAt
  let (manualRun, runEvent) ← run.transition .manualIntervention occurredAt
  UowM.saveRun
    (if attempt.phase = .compensation then
      { manualRun with compensationError := some unprovenCompensation } else manualRun)
    run.revision
  UowM.saveAttempt (attempt.closed .manualIntervention occurredAt)
  UowM.appendEvent runEvent
  UowM.appendEvent
    (recoveryEvent .recoveryManualIntervention manualStep attempt occurredAt
      "manual_intervention")

/-- `_recover_attempt`, for the unresolved attempt read before. -/
def recoverAttempt (cfg : Deployment) (answers : ProbeAnswers) (runId stepId : String)
    (expected : StepAttempt) (occurredAt : Timestamp) : UowM (Exit Unit) := do
  let run ← Tx.require (unknownRun runId) (← UowM.getRun runId)
  let definition ← Tx.require (unknownDefinition run) (← UowM.definitionOf run)
  let step ← Tx.require .stopIteration (definition.steps.find? fun step => step.id = stepId)
  let stepRun ← Tx.require (unknownStep runId stepId) (← UowM.getStep runId stepId)
  let attempts ← UowM.listStepAttempts runId stepId
  let attempt ← Tx.require .stopIteration (attempts.find? fun attempt =>
    attempt.attemptNo = expected.attemptNo ∧ attempt.phase = expected.phase)
  match ← probe cfg answers step attempt occurredAt with
  | some (.found output) =>
      persistApplied cfg run definition step stepRun attempt output occurredAt
  | some .notFound => persistNotApplied stepRun attempt occurredAt
  | some (.inconclusive _) | none =>
      persistManualIntervention run stepRun attempt occurredAt
  return .commit ()

end ChangePilot
