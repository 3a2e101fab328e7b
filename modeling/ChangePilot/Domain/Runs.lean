import ChangePilot.Domain.Events

/-!
# Runs and steps

The two aggregates with their `transition`, which raises unless the table allows
it and answers the changed aggregate together with the event that records the
change.
-/

namespace ChangePilot

/-- The `error_class` and `error_message` of a failure that a run remembers. -/
structure ErrorInfo where
  errorClass : ErrorClass
  errorMessage : String
  deriving DecidableEq, Repr

structure WorkflowRun where
  runId : String
  definitionId : String
  definitionVersion : ℕ
  definitionDigest : String
  state : RunState := .pending
  revision : ℕ := 0
  originalError : Option ErrorInfo := none
  compensationError : Option ErrorInfo := none
  deriving DecidableEq, Repr

structure StepRun where
  runId : String
  stepId : String
  state : StepState := .pending
  revision : ℕ := 0
  completionSequence : Option ℕ := none
  logicalIdempotencyKey : Option String := none
  deriving DecidableEq, Repr

namespace WorkflowRun

/-- The run after a change of state. -/
def moved (run : WorkflowRun) (target : RunState) : WorkflowRun :=
  { run with state := target, revision := run.revision + 1 }

/-- The event of a change of state. -/
def movedEvent (run : WorkflowRun) (target : RunState) (occurredAt : Timestamp) : AuditEvent :=
  .runStateChanged run.runId run.state target occurredAt run.revision (run.revision + 1)

def transition (run : WorkflowRun) (target : RunState) (occurredAt : Timestamp) :
    Except Error (WorkflowRun × AuditEvent) :=
  if target ∈ runTransitions run.state then
    .ok (run.moved target, run.movedEvent target occurredAt)
  else .error (.invalidTransition "run" run.state.value target.value)

@[simp] theorem transition_eq_ok_iff {run changed : WorkflowRun} {target : RunState}
    {occurredAt : Timestamp} {event : AuditEvent} :
    run.transition target occurredAt = .ok (changed, event) ↔
      target ∈ runTransitions run.state ∧ run.moved target = changed ∧
        run.movedEvent target occurredAt = event := by
  unfold transition
  split <;> simp_all

@[simp] theorem moved_runId (run : WorkflowRun) (target : RunState) :
    (run.moved target).runId = run.runId := rfl

@[simp] theorem movedEvent_runId (run : WorkflowRun) (target : RunState)
    (occurredAt : Timestamp) : (run.movedEvent target occurredAt).runId = run.runId := rfl

@[simp] theorem moved_state (run : WorkflowRun) (target : RunState) :
    (run.moved target).state = target := rfl

@[simp] theorem moved_revision (run : WorkflowRun) (target : RunState) :
    (run.moved target).revision = run.revision + 1 := rfl

@[simp] theorem moved_definitionId (run : WorkflowRun) (target : RunState) :
    (run.moved target).definitionId = run.definitionId := rfl

@[simp] theorem moved_definitionVersion (run : WorkflowRun) (target : RunState) :
    (run.moved target).definitionVersion = run.definitionVersion := rfl

end WorkflowRun

namespace StepRun

def moved (step : StepRun) (target : StepState) : StepRun :=
  { step with state := target, revision := step.revision + 1 }

def movedEvent (step : StepRun) (target : StepState) (occurredAt : Timestamp) : AuditEvent :=
  .stepStateChanged step.runId step.stepId step.state target occurredAt step.revision
    (step.revision + 1)

def transition (step : StepRun) (target : StepState) (occurredAt : Timestamp) :
    Except Error (StepRun × AuditEvent) :=
  if target ∈ stepTransitions step.state then
    .ok (step.moved target, step.movedEvent target occurredAt)
  else .error (.invalidTransition "step" step.state.value target.value)

@[simp] theorem transition_eq_ok_iff {step changed : StepRun} {target : StepState}
    {occurredAt : Timestamp} {event : AuditEvent} :
    step.transition target occurredAt = .ok (changed, event) ↔
      target ∈ stepTransitions step.state ∧ step.moved target = changed ∧
        step.movedEvent target occurredAt = event := by
  unfold transition
  split <;> simp_all

@[simp] theorem moved_runId (step : StepRun) (target : StepState) :
    (step.moved target).runId = step.runId := rfl

@[simp] theorem moved_stepId (step : StepRun) (target : StepState) :
    (step.moved target).stepId = step.stepId := rfl

@[simp] theorem movedEvent_runId (step : StepRun) (target : StepState)
    (occurredAt : Timestamp) : (step.movedEvent target occurredAt).runId = step.runId := rfl

@[simp] theorem moved_state (step : StepRun) (target : StepState) :
    (step.moved target).state = target := rfl

@[simp] theorem moved_revision (step : StepRun) (target : StepState) :
    (step.moved target).revision = step.revision + 1 := rfl

@[simp] theorem moved_completionSequence (step : StepRun) (target : StepState) :
    (step.moved target).completionSequence = step.completionSequence := rfl

end StepRun

end ChangePilot
