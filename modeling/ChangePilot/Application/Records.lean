import ChangePilot.Domain.Runs

/-!
# Attempts, outcomes and approval requests

The records the application layer stores besides runs and steps.  An outcome is
either a success with its result or a failure with its class, as the two
functions that build outcomes leave it.  An approval request carries the
consistency its constructor checks.
-/

namespace ChangePilot

/-! ## Attempts -/

/-- The texts an attempt's `status` is compared with or set to. -/
inductive AttemptStatus where
  | running
  | success | failed
  | succeeded | notApplied | manualIntervention
  | resultUnknown
  deriving DecidableEq, Repr

structure StepAttempt where
  runId : String
  stepId : String
  attemptNo : ℕ
  phase : ToolExecutionPhase
  attemptId : String
  status : AttemptStatus
  idempotencyKey : String
  startedAt : Timestamp
  effectApplied : Bool := false
  completedAt : Option Timestamp := none
  nextAttemptAt : Option Timestamp := none
  result : Value := .none
  errorClass : Option ErrorClass := none
  errorMessage : Option String := none

/-- `status in {"success", "succeeded"}`. -/
def StepAttempt.Completed (attempt : StepAttempt) : Prop :=
  attempt.status = .success ∨ attempt.status = .succeeded

instance (attempt : StepAttempt) : Decidable attempt.Completed :=
  inferInstanceAs (Decidable (_ ∨ _))

/-! ## Outcomes -/

/-- How an execution ended. -/
inductive Ending where
  | success (effectApplied : Bool) (result : Value)
  | failed (errorClass : ErrorClass) (errorMessage : String)

structure ExecutionOutcome where
  runId : String
  stepId : String
  attemptNo : ℕ
  ending : Ending

namespace ExecutionOutcome

variable (outcome : ExecutionOutcome)

def status : AttemptStatus :=
  match outcome.ending with
  | .success _ _ => .success
  | .failed _ _ => .failed

def effectApplied : Bool :=
  match outcome.ending with
  | .success effectApplied _ => effectApplied
  | .failed _ _ => false

def result : Value :=
  match outcome.ending with
  | .success _ result => result
  | .failed _ _ => .none

def errorClass : Option ErrorClass :=
  match outcome.ending with
  | .success _ _ => none
  | .failed errorClass _ => some errorClass

def errorMessage : Option String :=
  match outcome.ending with
  | .success _ _ => none
  | .failed _ errorMessage => some errorMessage

theorem status_eq : outcome.status = .success ∨ outcome.status = .failed := by
  unfold status
  split <;> simp

/-- What a run remembers of a failed outcome. -/
def errorInfo : ErrorInfo :=
  ⟨outcome.errorClass.getD .permanent, outcome.errorMessage.getD "tool execution failed"⟩

end ExecutionOutcome

/-- `_outcome_summary`. -/
def outcomeSummary (outcome : ExecutionOutcome) (redactedResult : Value) : Value :=
  match outcome.ending with
  | .success effectApplied _ => .ofFields [
      ("status", .str "success"), ("effect_applied", .bool effectApplied),
      ("result", redactedResult)]
  | .failed errorClass _ => .ofFields [
      ("status", .str "failed"), ("error_class", .str errorClass.value)]

/-! ## Approval requests -/

inductive ApprovalStatus where
  | pending | approved | rejected | invalidated
  deriving DecidableEq, Repr

inductive ApprovalDecision where
  | approved | rejected
  deriving DecidableEq, Repr

def ApprovalStatus.value : ApprovalStatus → String
  | pending => "pending"
  | approved => "approved"
  | rejected => "rejected"
  | invalidated => "invalidated"

def ApprovalDecision.status : ApprovalDecision → ApprovalStatus
  | approved => .approved
  | rejected => .rejected

/-- A digest of the actor; the algorithm is always `sha256`. -/
structure ApprovalActorDigest where
  digest : Sha256Digest
  deriving DecidableEq

/-- A digest of the reason, when one was provided. -/
structure ApprovalReasonDigest where
  digest : Option Sha256Digest
  deriving DecidableEq

def ApprovalActorDigest.asMapping (actor : ApprovalActorDigest) : Value :=
  .ofFields [("algorithm", .str "sha256"), ("digest", .str actor.digest.val)]

def ApprovalReasonDigest.asMapping (reason : ApprovalReasonDigest) : Value :=
  match reason.digest with
  | some digest => .ofFields [
      ("provided", .bool true), ("algorithm", .str "sha256"), ("digest", .str digest.val)]
  | none => .ofFields [("provided", .bool false), ("algorithm", .none), ("digest", .none)]

/-- What `__post_init__` demands of the fields that a decision sets. -/
def approvalFieldsConsistent (version : ℕ) (status : ApprovalStatus)
    (decision : Option ApprovalDecision) (actor : Option ApprovalActorDigest)
    (reason : Option ApprovalReasonDigest) (decidedAt : Option Timestamp) : Prop :=
  match status with
  | .pending => version = 0 ∧ decision = none ∧ actor = none ∧ reason = none ∧ decidedAt = none
  | .approved | .rejected =>
      1 ≤ version ∧ decision.map ApprovalDecision.status = some status ∧
        actor.isSome ∧ reason.isSome ∧ decidedAt.isSome
  | .invalidated =>
      1 ≤ version ∧ decision = none ∧ actor = none ∧ reason = none ∧ decidedAt.isSome

theorem approvalFieldsConsistent_pending :
    approvalFieldsConsistent 0 .pending none none none none := ⟨rfl, rfl, rfl, rfl, rfl⟩

structure ApprovalRequest where
  id : String
  runId : String
  definitionDigest : String
  stepId : String
  toolName : String
  toolVersion : String
  redactedArguments : Value
  bindingDigest : Sha256Digest
  riskReasons : List String
  createdAt : Timestamp
  version : ℕ := 0
  status : ApprovalStatus := .pending
  decision : Option ApprovalDecision := none
  actor : Option ApprovalActorDigest := none
  reason : Option ApprovalReasonDigest := none
  decidedAt : Option Timestamp := none
  consistent : approvalFieldsConsistent version status decision actor reason decidedAt := by
    simp [approvalFieldsConsistent]

/-- The identity of an execution that a request stands for. -/
structure Binding where
  definitionDigest : String
  stepId : String
  toolName : String
  toolVersion : String
  bindingDigest : String
  deriving DecidableEq

namespace ApprovalRequest

def binding (request : ApprovalRequest) : Binding :=
  ⟨request.definitionDigest, request.stepId, request.toolName, request.toolVersion,
    request.bindingDigest.val⟩

/-- `matches`. -/
def Matches (request : ApprovalRequest) (binding : Binding) : Prop := request.binding = binding

instance (request : ApprovalRequest) (binding : Binding) : Decidable (request.Matches binding) :=
  inferInstanceAs (Decidable (_ = _))

/-- The request after a decision. -/
def decided (request : ApprovalRequest) (decision : ApprovalDecision)
    (actor : ApprovalActorDigest) (reason : ApprovalReasonDigest) (decidedAt : Timestamp) :
    ApprovalRequest :=
  { request with
    version := request.version + 1
    status := decision.status
    decision := some decision
    actor := some actor
    reason := some reason
    decidedAt := some decidedAt
    consistent := by cases decision <;> simp [approvalFieldsConsistent, ApprovalDecision.status] }

/-- The request after its execution has changed. -/
def invalidated (request : ApprovalRequest) (decidedAt : Timestamp) : ApprovalRequest :=
  { request with
    version := request.version + 1
    status := .invalidated
    decision := none
    actor := none
    reason := none
    decidedAt := some decidedAt
    consistent := by simp [approvalFieldsConsistent] }

section

variable (request : ApprovalRequest) (decision : ApprovalDecision) (actor : ApprovalActorDigest)
  (reason : ApprovalReasonDigest) (decidedAt : Timestamp)

@[simp] theorem decided_id : (request.decided decision actor reason decidedAt).id = request.id := rfl

@[simp] theorem decided_runId :
    (request.decided decision actor reason decidedAt).runId = request.runId := rfl

@[simp] theorem decided_binding :
    (request.decided decision actor reason decidedAt).binding = request.binding := rfl

@[simp] theorem decided_status :
    (request.decided decision actor reason decidedAt).status = decision.status := rfl

@[simp] theorem invalidated_id : (request.invalidated decidedAt).id = request.id := rfl

@[simp] theorem invalidated_runId : (request.invalidated decidedAt).runId = request.runId := rfl

@[simp] theorem invalidated_binding :
    (request.invalidated decidedAt).binding = request.binding := rfl

@[simp] theorem invalidated_status : (request.invalidated decidedAt).status = .invalidated := rfl

end

end ApprovalRequest

end ChangePilot
