import ChangePilot.Domain.Definitions
import ChangePilot.Planning.Validation

/-!
# From a plan to a workflow

A plan is validated once more, mapped to the payload of a workflow definition, and the
definition parsed like any other.
-/

namespace ChangePilot

/-! ## The payload -/

def PlanToolRef.modelDump (tool : PlanToolRef) : Value :=
  .ofFields [("name", .str tool.name), ("version", .str tool.version)]

/-- The payload of a step. -/
def PlanStep.payload (step : PlanStep) : Value :=
  .ofFields <| [
    ("id", .str step.id),
    ("tool", step.tool.modelDump),
    ("arguments", .ofFields step.arguments),
    ("depends_on", .list (step.dependsOn.map .str)),
    ("risk", .str step.risk.value),
    ("retry", .ofFields [
      ("max_attempts", .int 3), ("initial_backoff_seconds", .float (.finite 1))])] ++
    step.compensationTool.toList.map fun tool => ("compensation_tool", tool.modelDump)

def ChangePlan.payload (plan : ChangePlan) : Value :=
  .ofFields [
    ("definition_id", .str plan.planId),
    ("version", .int plan.version),
    ("steps", .list (plan.steps.map PlanStep.payload))]

/-! ## The mapper -/

structure WorkflowDefinitionMapper where
  runtime : Runtime
  tools : ToolRegistry
  validator : PlanValidator

namespace WorkflowDefinitionMapper

variable (mapper : WorkflowDefinitionMapper)

/-- The workflow of a plan that is valid. -/
def prepareNormalized (plan : ChangePlan) : Except PlanningError PreparedWorkflow :=
  match WorkflowDefinition.fromMapping mapper.runtime mapper.tools plan.payload with
  | .error error => .error (.raised error)
  | .ok definition => .ok {
      planId := plan.planId
      planVersion := plan.version
      knowledgeSnapshotDigest := plan.knowledgeSnapshotDigest
      definitionId := definition.definitionId
      definitionVersion := definition.version
      definitionDigest := definition.digest
      payload := plan.payload }

/-- `prepare` -/
def prepare (plan : ChangePlan) (evidence : List RetrievedEvidence) :
    Except PlanningError PreparedWorkflow :=
  match mapper.validator.validate plan evidence with
  | .error error => .error (.raised error)
  | .ok report =>
      match report.valid, report.normalizedPlan with
      | true, some normalized => mapper.prepareNormalized normalized
      | _, _ =>
          .error (.planValidationError ("; ".intercalate
            (report.errors.map fun issue => issue.code.value ++ ": " ++ issue.message)))

end WorkflowDefinitionMapper

/-! ## Prepared workflows -/

section

variable {mapper : WorkflowDefinitionMapper} {plan : ChangePlan}
  {evidence : List RetrievedEvidence} {prepared : PreparedWorkflow}

/-- What is prepared is the plan, validated on the evidence and normalized. -/
theorem WorkflowDefinitionMapper.prepare_eq_ok_iff :
    mapper.prepare plan evidence = .ok prepared ↔ mapper.validator.PlanAccepted plan evidence ∧
      mapper.prepareNormalized (plan.withSteps (plan.steps.map mapper.validator.normalizeStep)
        (mapper.validator.map_id_normalizeStep plan.steps)) = .ok prepared := by
  unfold prepare
  constructor
  · intro h
    split at h
    · cases h
    case h_2 report hreport =>
      split at h
      case h_1 normalized hvalid hnormalized =>
        obtain ⟨haccepted, rfl⟩ := PlanValidator.validate_valid_iff.mp ⟨hreport, hvalid⟩
        obtain rfl := Option.some.inj hnormalized
        exact ⟨haccepted, h⟩
      case h_2 => cases h
  · rintro ⟨haccepted, h⟩
    obtain ⟨hreport, _⟩ := PlanValidator.validate_valid_iff.mpr
      ⟨haccepted, rfl⟩
    rw [hreport]
    exact h

end

end ChangePilot
