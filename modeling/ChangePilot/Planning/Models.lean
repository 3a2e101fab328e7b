import ChangePilot.Ports.Tools
import Mathlib.Data.List.Nodup

/-!
# Planning models

The requests, plans, pieces of evidence and results that cross the planning boundary.  A
`ChangePlan` carries what its constructor has checked: a positive version, and step ids
of which none occurs twice.
-/

namespace ChangePilot

/-! ## Enumerations -/

inductive TrustLevel where
  | untrusted | internal | authoritative
  deriving DecidableEq, Repr

def TrustLevel.value : TrustLevel → String
  | untrusted => "untrusted"
  | internal => "internal"
  | authoritative => "authoritative"

/-- `TrustLevel(text)` -/
def TrustLevel.ofValue? (text : String) : Option TrustLevel :=
  [untrusted, internal, authoritative].find? fun level => level.value = text

@[simp] theorem TrustLevel.ofValue?_value (level : TrustLevel) : ofValue? level.value = some level := by
  cases level <;> decide

def ToolRisk.value : ToolRisk → String
  | low => "low"
  | medium => "medium"
  | high => "high"

/-! ## Failures -/

/-- The exceptions of the planning code and of its database, under their class names;
`raised` is one of the workflow code or of another library. -/
inductive PlanningError where
  | knowledgeError (message : String)
  | planValidationError (message : String)
  | lookupError (message : String)
  | valueError (message : String)
  | integrityError (constraint : String)
  | raised (error : Error)
  deriving DecidableEq, Repr

/-! ## Requests -/

structure ChangeRequest where
  serviceId : Option String := none
  currentVersion : Option String := none
  targetVersion : Option String := none
  pullRequestUrl : Option String := none
  changeSummary : String
  successConditions : List String := []
  constraints : List String := []
  deriving DecidableEq, Repr

/-! ## Evidence -/

structure EvidenceRef where
  documentId : String
  documentVersion : String
  chunkId : String
  location : String
  contentDigest : String
  deriving DecidableEq, Repr

/-- A finite score is the rational number it denotes. -/
structure RetrievedEvidence where
  reference : EvidenceRef
  text : String
  trustLevel : TrustLevel
  lexicalRank : Option ℕ := none
  vectorRank : Option ℕ := none
  hybridScore : ℚ
  conflict : Bool := false
  deriving DecidableEq, Repr

/-! ## Plans -/

structure PlanToolRef where
  name : String
  version : String
  deriving DecidableEq, Repr

structure PlanStep where
  id : String
  tool : PlanToolRef
  arguments : List (String × Value) := []
  dependsOn : List String := []
  risk : ToolRisk := .low
  approvalRequired : Bool := false
  approvalReason : Option String := none
  rationale : String := ""
  riskReasons : List String := []
  successConditions : List String := []
  compensationTool : Option PlanToolRef := none
  compensationIntent : Option String := none
  evidenceRefs : List EvidenceRef := []

/-- `_reject_blank_optional` has let the fields pass. -/
structure PlanStep.Checked (runtime : Runtime) (step : PlanStep) : Prop where
  id : runtime.isBlank step.id = false
  compensationIntent : ∀ intent, step.compensationIntent = some intent →
    runtime.isBlank intent = false
  approvalReason : ∀ reason, step.approvalReason = some reason → runtime.isBlank reason = false

structure ChangePlan where
  planId : String
  version : ℕ
  goal : String
  assumptions : List String := []
  steps : List PlanStep
  knowledgeSnapshotDigest : String
  promptVersion : String
  toolPolicyVersion : String
  version_pos : 1 ≤ version
  ids_nodup : (steps.map PlanStep.id).Nodup

/-- Every step has passed its own checks. -/
def ChangePlan.Checked (runtime : Runtime) (plan : ChangePlan) : Prop :=
  ∀ step ∈ plan.steps, step.Checked runtime

/-- `plan.model_copy(update={"steps": ...})`, for steps under the ids of the plan. -/
def ChangePlan.withSteps (plan : ChangePlan) (steps : List PlanStep)
    (hids : steps.map PlanStep.id = plan.steps.map PlanStep.id) : ChangePlan where
  __ := plan
  steps := steps
  ids_nodup := hids ▸ plan.ids_nodup

/-! ## Results -/

structure ClarificationQuestion where
  questionId : String
  field : String
  prompt : String
  blocking : Bool := true
  deriving DecidableEq, Repr

inductive PlanningResult where
  | clarificationRequired (sessionId : String) (questions : List ClarificationQuestion)
  | planReady (sessionId : String) (plan : ChangePlan) (evidence : List RetrievedEvidence)
  | planningRejected (sessionId : String) (errors : List String)
  | budgetExhausted (sessionId : String) (callsUsed totalTokens : ℕ)

structure PreparedWorkflow where
  planId : String
  planVersion : ℕ
  knowledgeSnapshotDigest : String
  definitionId : String
  definitionVersion : ℕ
  definitionDigest : String
  payload : Value

end ChangePilot
