import ChangePilot.Application.Scheduler
import ChangePilot.Persistence.Memory

/-!
# Approvals

The digest that binds an approval to one execution, the check that refuses to
decide while recovery is due, and the unit of work of a decision.
-/

namespace ChangePilot

/-- One coordinator process: the standard library and the registry it runs with,
and its concurrency, which the constructor checks. -/
structure Deployment where
  runtime : Runtime
  registry : ToolRegistry
  concurrency : ℕ := 4
  concurrency_bounds : 1 ≤ concurrency ∧ concurrency ≤ 16 := by decide

/-! ## Canonical values -/

mutual

/-- `canonical_json_value`.  A `Value` has no reference cycle to detect. -/
def canonicalJsonValue : Value → Except Error Value
  | .secretRef _ _ | .unavailableSecretRef => .ok redacted
  | .none => .ok .none
  | .str value => .ok (.str value)
  | .bool value => .ok (.bool value)
  | .int value => .ok (.int value)
  | .float (.finite value) => .ok (.float (.finite value))
  | .dict entries | .mappingProxy entries => (canonicalEntries entries).map .dict
  | .list items | .tuple items => (canonicalItems items).map .list
  | _ => .error (.valueError "approval binding must contain canonical JSON values")

def canonicalItems : List Value → Except Error (List Value)
  | [] => .ok []
  | item :: rest => do
      let item ← canonicalJsonValue item
      let rest ← canonicalItems rest
      return item :: rest

def canonicalEntries : List (Value × Value) → Except Error (List (Value × Value))
  | [] => .ok []
  | (.str key, value) :: rest => do
      let value ← canonicalJsonValue value
      let rest ← canonicalEntries rest
      return (.str key, value) :: rest
  | _ :: _ => .error (.valueError "approval binding must contain canonical JSON string keys")

end

def approvalBindingDigest (runtime : Runtime) (planDigest stepId toolName toolVersion : String)
    (redactedArguments : Value) : Except Error Sha256Digest := do
  let canonicalArguments ← canonicalJsonValue redactedArguments
  let encoded ← runtime.jsonDumps false <| .ofFields [
    ("plan_digest", .str planDigest),
    ("step_id", .str stepId),
    ("tool", .list [.str toolName, .str toolVersion]),
    ("arguments", canonicalArguments)]
  return runtime.sha256 encoded

/-- `_text_digest`. -/
def textDigest (runtime : Runtime) (domain value : String) : Sha256Digest :=
  runtime.sha256 s!"{domain}\x00{value}"

/-! ## Recovery comes first -/

def unknownRun (runId : String) : Error := .lookupError s!"unknown run {runId}"

def unknownDefinition (run : WorkflowRun) : Error :=
  .lookupError s!"unknown definition {run.definitionId}@{run.definitionVersion}"

def unknownStep (runId stepId : String) : Error := .lookupError s!"unknown step {runId}:{stepId}"

/-- `uow.steps.get(run_id, step_id).state`. -/
def stepStateOf (store : MemoryStore) (runId stepId : String) : Except Error StepState :=
  match store.getStep runId stepId with
  | none => .error .attributeError
  | some stepRun => .ok stepRun.state

/-- `any(...)` over the steps of a definition, by state and id. -/
def anyStep (store : MemoryStore) (runId : String) (p : StepState → String → Bool) :
    List StepDefinition → Except Error Bool
  | [] => .ok false
  | step :: rest => do
      if p (← stepStateOf store runId step.id) step.id then return true
      anyStep store runId p rest

/-- An attempt whose result is unknown and not yet decided by recovery. -/
def StepAttempt.AwaitsRecovery (attempt : StepAttempt) : Prop :=
  attempt.status = .resultUnknown ∨
    (attempt.errorClass = some .resultUnknown ∧
      attempt.status ∉ [.notApplied, .succeeded, .manualIntervention])

instance (attempt : StepAttempt) : Decidable attempt.AwaitsRecovery :=
  inferInstanceAs (Decidable (_ ∨ _))

def approvalRecoveryRequired (store : MemoryStore) (run : WorkflowRun) : Except Error Bool := do
  let some definition := store.definitionOf run | throw (unknownDefinition run)
  if ← anyStep store run.runId (fun state _ => state = .resultUnknown) definition.steps then
    return true
  return (store.listAttempts run.runId).any fun attempt => attempt.AwaitsRecovery

/-! ## Decisions -/

/-- The loop of `_rejection_target`, which looks for effects of any phase with the
status `success`. -/
def rejectionTargetFrom (store : MemoryStore) (runId : String) :
    Bool → List StepDefinition → RunState
  | hasCompensableEffect, [] => if hasCompensableEffect then .compensating else .cancelled
  | hasCompensableEffect, step :: rest =>
      match store.getStep runId step.id with
      | none => rejectionTargetFrom store runId hasCompensableEffect rest
      | some stepRun =>
          if stepRun.state ≠ .succeeded then
            rejectionTargetFrom store runId hasCompensableEffect rest
          else if ¬ (store.listStepAttempts runId step.id).any fun attempt =>
              attempt.status = .success ∧ attempt.effectApplied then
            rejectionTargetFrom store runId hasCompensableEffect rest
          else if step.compensationTool.isNone then .manualIntervention
          else rejectionTargetFrom store runId true rest

/-- `_rejection_target`. -/
def rejectionTarget (store : MemoryStore) (run : WorkflowRun) : Except Error RunState :=
  match store.definitionOf run with
  | none => .error (unknownDefinition run)
  | some definition => .ok (rejectionTargetFrom store run.runId false definition.steps)

def approvalEventType : ApprovalDecision → EventType
  | .approved => .approvalApproved
  | .rejected => .approvalRejected

/-- The run state a decision leads to. -/
def decisionTarget (store : MemoryStore) (run : WorkflowRun) :
    ApprovalDecision → Except Error RunState
  | .approved => .ok .running
  | .rejected => rejectionTarget store run

/-- `ApprovalService.decide`.  A decision that is neither of the two is refused
before anything else happens. -/
def ApprovalService.decide (runtime : Runtime) (runId requestId : String) (decision : ApprovalDecision)
    (expectedVersion : ℤ) (bindingDigest actor reason : String) (occurredAt : Timestamp) :
    UowM (Exit ApprovalRequest) := do
  let safeActor : ApprovalActorDigest := ⟨textDigest runtime "approval-actor" actor⟩
  let safeReason : ApprovalReasonDigest :=
    ⟨if runtime.isBlank reason then none else some (textDigest runtime "approval-reason" reason)⟩
  let request ← Tx.require (.lookupError s!"unknown approval request {runId}:{requestId}")
    (← UowM.getApproval runId requestId)
  let run ← Tx.require (unknownRun request.runId) (← UowM.getRun request.runId)
  if ← (← UowM.read fun store => approvalRecoveryRequired store run) then
    throw (.approvalDecisionError "approval_recovery_required")
  if (request.version : ℤ) ≠ expectedVersion then
    throw (.optimisticLockError "approval" s!"{runId}:{requestId}" expectedVersion request.version)
  if request.status ≠ .pending then throw (.approvalDecisionError "already_decided")
  if request.bindingDigest.val ≠ bindingDigest then
    throw (.approvalDecisionError "binding_mismatch")
  if run.state ≠ .waitingApproval then
    throw (.approvalDecisionError "run_not_waiting_approval")
  let targetState ← (← UowM.read fun store => decisionTarget store run decision)
  let decided := request.decided decision safeActor safeReason occurredAt
  let (changedRun, runEvent) ← run.transition targetState occurredAt
  let decisionEvent := AuditEvent.approvalChanged run.runId request.stepId
    (approvalEventType decision) occurredAt run.state targetState run.revision
    changedRun.revision request.id request.bindingDigest.val decision.status.value
    [("actor", safeActor.asMapping), ("reason", safeReason.asMapping)]
  UowM.saveApproval decided request.version
  UowM.saveRun changedRun run.revision
  UowM.appendEvent decisionEvent
  UowM.appendEvent runEvent
  return .commit decided

end ChangePilot
