import ChangePilot.Application.Approvals

/-!
# The workflow service

Creating and cancelling runs.
-/

namespace ChangePilot.WorkflowService

def addSteps (runId : String) : List StepDefinition → UowM Unit
  | [] => pure ()
  | step :: rest => do
      UowM.addStep { runId := runId, stepId := step.id }
      addSteps runId rest

/-- The run of a definition, as `WorkflowRun.new` makes it. -/
def newRun (runId : String) (definition : WorkflowDefinition) : WorkflowRun where
  runId := runId
  definitionId := definition.definitionId
  definitionVersion := definition.version
  definitionDigest := definition.digest

def createdEvent (runId : String) (definition : WorkflowDefinition) (occurredAt : Timestamp) :
    AuditEvent where
  runId := runId
  stepId := none
  eventType := .workflowCreated
  occurredAt := occurredAt
  previousState := .run .pending
  newState := .run .pending
  previousRevision := 0
  revision := 0
  summary := .ofFields [
    ("definition_id", .str definition.definitionId),
    ("definition_version", .int definition.version),
    ("definition_digest", .str definition.digest),
    ("step_count", .int definition.steps.length)]

/-- The unit of work of `create_run`, for the parsed definition. -/
def addRun (runId : String) (definition : WorkflowDefinition) (occurredAt : Timestamp) :
    UowM (Exit Unit) := do
  match ← UowM.getDefinition definition.definitionId definition.version with
  | none => UowM.addDefinition definition
  | some existing =>
      if existing.digest ≠ definition.digest then
        throw (.definitionConflictError
          ("definition identity already exists with different content: " ++
            s!"{definition.definitionId}@{definition.version}"))
  UowM.addRun (newRun runId definition)
  addSteps runId definition.steps
  UowM.appendEvent (createdEvent runId definition occurredAt)
  return .commit ()

/-- `create_run`: the payload is parsed before the unit of work is opened. -/
def createRun (cfg : Deployment) (payload : Value) (runId : String) (occurredAt : Timestamp) :
    UowM (Exit Unit) := do
  let definition ← WorkflowDefinition.fromMapping cfg.runtime cfg.registry payload
  addRun runId definition occurredAt

def cancelRun (runId : String) (occurredAt : Timestamp) : UowM (Exit Unit) := do
  let run ← Tx.require (unknownRun runId) (← UowM.getRun runId)
  let (cancelled, event) ← run.transition .cancelled occurredAt
  UowM.saveRun cancelled run.revision
  UowM.appendEvent event
  return .commit ()

end ChangePilot.WorkflowService
