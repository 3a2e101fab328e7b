import ChangePilot.Application.Tooling
import ChangePilot.Library.Kahn
import ChangePilot.Library.Transaction
import ChangePilot.Planning.Models
import Mathlib.Data.String.Basic

/-!
# Plan validation

`validate` collects what is wrong with a plan, its steps in order, and answers a plan in
which risks and approvals are raised to what the tools and the policies ask for if there
is nothing.  `StepAccepted` says what a step of such a plan has passed.
-/

namespace ChangePilot

/-! ## Policies -/

structure PlanningToolPolicy where
  tool : PlanToolRef
  minimumRisk : ToolRisk
  sideEffecting : Bool
  compensationRequired : Bool
  minimumTrust : TrustLevel

/-- The policies, at most one for a tool. -/
structure PlanningPolicyCatalog where
  version : String
  policies : List PlanningToolPolicy
  tools_nodup : (policies.map PlanningToolPolicy.tool).Nodup

def PlanningPolicyCatalog.get (catalog : PlanningPolicyCatalog) (name version : String) :
    Option PlanningToolPolicy :=
  catalog.policies.find? fun policy => policy.tool = ⟨name, version⟩

/-! ## Orders -/

/-- `_RISK_ORDER` -/
def ToolRisk.order : ToolRisk → ℕ
  | low => 0
  | medium => 1
  | high => 2

/-- `_TRUST_ORDER` -/
def TrustLevel.order : TrustLevel → ℕ
  | untrusted => 0
  | internal => 1
  | authoritative => 2

/-- The greater of two risks, the first of two equal ones. -/
def ToolRisk.greater (a b : ToolRisk) : ToolRisk := if a.order < b.order then b else a

/-- `_max_risk` -/
def maxRisk (a b c : ToolRisk) : ToolRisk := (a.greater b).greater c

theorem ToolRisk.order_greater (a b : ToolRisk) : (a.greater b).order = max a.order b.order := by
  unfold greater
  split <;> omega

theorem ToolRisk.order_injective : Function.Injective ToolRisk.order := by
  intro a b h
  cases a <;> cases b <;> first | rfl | cases h

theorem order_maxRisk (a b c : ToolRisk) :
    (maxRisk a b c).order = max (max a.order b.order) c.order := by
  rw [maxRisk, ToolRisk.order_greater, ToolRisk.order_greater]

/-! ## Reports -/

inductive IssueCode where
  | unknownDependency | dependencyCycle | staleToolPolicy | unknownTool | invalidArguments
  | missingCompensation | unknownCompensationTool | invalidEvidenceReference
  | conflictingEvidence | insufficientTrustedEvidence
  deriving DecidableEq, Repr

def IssueCode.value : IssueCode → String
  | unknownDependency => "unknown_dependency"
  | dependencyCycle => "dependency_cycle"
  | staleToolPolicy => "stale_tool_policy"
  | unknownTool => "unknown_tool"
  | invalidArguments => "invalid_arguments"
  | missingCompensation => "missing_compensation"
  | unknownCompensationTool => "unknown_compensation_tool"
  | invalidEvidenceReference => "invalid_evidence_reference"
  | conflictingEvidence => "conflicting_evidence"
  | insufficientTrustedEvidence => "insufficient_trusted_evidence"

structure ValidationIssue where
  code : IssueCode
  message : String
  stepId : Option String := none
  repairable : Bool := false
  deriving DecidableEq, Repr

structure ValidationReport where
  valid : Bool
  normalizedPlan : Option ChangePlan := none
  errors : List ValidationIssue := []

/-- The exceptions that `except ValueError` catches. -/
def Error.isValueError : Error → Bool
  | valueError _ | definitionValidationError .. | definitionConflictError _
  | invalidTransition .. => true
  | _ => false

/-! ## The validator -/

structure PlanValidator where
  runtime : Runtime
  tools : ToolRegistry
  policies : PlanningPolicyCatalog

namespace PlanValidator

variable (v : PlanValidator)

/-- `evidence_by_chunk.get(chunk_id)`: the last piece of evidence for the chunk. -/
def evidenceFor (evidence : List RetrievedEvidence) (chunkId : String) :
    Option RetrievedEvidence :=
  evidence.reverse.find? fun item => item.reference.chunkId = chunkId

/-- The piece of evidence that a reference cites, if it is still as the reference says. -/
def citedEvidence (evidence : List RetrievedEvidence) (reference : EvidenceRef) :
    Option RetrievedEvidence :=
  (evidenceFor evidence reference.chunkId).filter fun item => item.reference = reference

def invalidReference (step : PlanStep) (reference : EvidenceRef) : ValidationIssue where
  code := .invalidEvidenceReference
  message := s!"evidence {v.runtime.repr reference.chunkId} is absent or stale"
  stepId := some step.id

/-- `_validate_citations` -/
def validateCitations (step : PlanStep) (evidence : List RetrievedEvidence) :
    List ValidationIssue :=
  step.evidenceRefs.flatMap fun reference =>
    match citedEvidence evidence reference with
    | none => [v.invalidReference step reference]
    | some _ => []

/-- What `_validate_evidence` finds of one reference. -/
def referenceIssues (step : PlanStep) (evidence : List RetrievedEvidence)
    (reference : EvidenceRef) : List ValidationIssue :=
  match citedEvidence evidence reference with
  | none => [v.invalidReference step reference]
  | some item =>
      if item.conflict then [{
        code := .conflictingEvidence
        message := s!"evidence {v.runtime.repr reference.chunkId} is conflicted"
        stepId := some step.id }]
      else []

/-- `valid_trust` after the loop over the references. -/
def hasTrustedEvidence (step : PlanStep) (policy : PlanningToolPolicy)
    (evidence : List RetrievedEvidence) : Bool :=
  step.evidenceRefs.any fun reference =>
    (citedEvidence evidence reference).any fun item =>
      policy.minimumTrust.order ≤ item.trustLevel.order

/-- `_validate_evidence` -/
def validateEvidence (step : PlanStep) (policy : PlanningToolPolicy)
    (evidence : List RetrievedEvidence) : List ValidationIssue :=
  step.evidenceRefs.flatMap (v.referenceIssues step evidence) ++
    if policy.sideEffecting && !hasTrustedEvidence step policy evidence then [{
      code := .insufficientTrustedEvidence
      message := "side-effecting step lacks sufficiently trusted evidence"
      stepId := some step.id }]
    else []

/-- `_validate_compensation` -/
def validateCompensation (step : PlanStep) (policy : PlanningToolPolicy) : List ValidationIssue :=
  if !policy.compensationRequired then []
  else
    match step.compensationTool with
    | none => [missing]
    | some tool =>
        if step.compensationIntent.getD "" = "" then [missing]
        else if !v.tools.contains tool.name tool.version then [{
          code := .unknownCompensationTool
          message := "compensation tool is not registered"
          stepId := some step.id }]
        else []
where
  missing : ValidationIssue := {
    code := .missingCompensation
    message := "tool policy requires a compensation tool and intent"
    stepId := some step.id }

/-- The arguments of a step against the model of its tool. -/
def validateArguments (step : PlanStep) : Except Error (List ValidationIssue) :=
  match v.tools.coerceArguments v.runtime step.tool.name step.tool.version
      (.ofFields step.arguments) with
  | .ok _ => .ok []
  | .error error =>
      if error.isValueError then
        .ok [{ code := .invalidArguments, message := error.text, stepId := some step.id }]
      else .error error

/-- `_validate_step`, what it adds to the errors. -/
def validateStep (evidence : List RetrievedEvidence) (step : PlanStep) :
    Except Error (List ValidationIssue) :=
  if !v.tools.contains step.tool.name step.tool.version then .ok [{
    code := .unknownTool
    message := s!"unknown tool {step.tool.name}@{step.tool.version}"
    stepId := some step.id }]
  else do
    let invalid ← v.validateArguments step
    match v.policies.get step.tool.name step.tool.version with
    | some policy =>
        return invalid ++ v.validateCompensation step policy ++ v.validateEvidence step policy evidence
    | none => return invalid ++ v.validateCitations step evidence

/-- The reasons that are added to those of the step. -/
def addedReasons (step : PlanStep) (descriptor : ToolDescriptor)
    (policy : Option PlanningToolPolicy) : List String :=
  (if descriptor.risk = .high then
    ["runtime tool descriptor marks this operation high risk"] else []) ++
  (if policy.any fun policy => step.risk.order < policy.minimumRisk.order then
    ["planning tool policy raises the minimum risk"] else [])

/-- `_validate_step`, the step it answers. -/
def normalizeStep (step : PlanStep) : PlanStep :=
  match v.tools.tools step.tool.name step.tool.version with
  | none => step
  | some descriptor =>
      let policy := v.policies.get step.tool.name step.tool.version
      let finalRisk := maxRisk step.risk descriptor.risk
        (match policy with | some policy => policy.minimumRisk | none => descriptor.risk)
      let approvalRequired := step.approvalRequired || finalRisk = .high
      { step with
        risk := finalRisk
        approvalRequired := approvalRequired
        approvalReason :=
          if approvalRequired && step.approvalReason.getD "" = "" then
            some "deterministic risk policy requires approval"
          else step.approvalReason
        riskReasons := (step.riskReasons ++ addedReasons step descriptor policy).eraseDups }

/-- The dependencies on no step of the plan. -/
def dependencyIssues (plan : ChangePlan) : List ValidationIssue :=
  plan.steps.flatMap fun step =>
    (step.dependsOn.filter fun dependency => dependency ∉ plan.steps.map PlanStep.id).map
      fun dependency => {
        code := .unknownDependency
        message := s!"unknown dependency {v.runtime.repr dependency}"
        stepId := some step.id }

/-- The dependencies of a plan as a graph. -/
def planGraph (plan : ChangePlan) : Kahn.Graph String :=
  plan.steps.map fun step => (step.id, step.dependsOn)

/-- The cycle among the dependencies; an empty one has no first step to report. -/
def cycleIssues (plan : ChangePlan) : Except Error (List ValidationIssue) :=
  match Kahn.findCycle (planGraph plan) with
  | none => .ok []
  | some [] => .error (.lookupError "tuple index out of range")
  | some (first :: rest) =>
      let cycle := ", ".intercalate (first :: rest)
      .ok [{ code := .dependencyCycle, message := s!"cycle detected: {cycle}", stepId := some first }]

/-- What is wrong with the dependencies; a cycle is looked for if all of them are known. -/
def graphIssues (plan : ChangePlan) : Except Error (List ValidationIssue) :=
  if v.dependencyIssues plan = [] then cycleIssues plan else .ok (v.dependencyIssues plan)

def policyIssues (plan : ChangePlan) : List ValidationIssue :=
  if plan.toolPolicyVersion ≠ v.policies.version then
    [{ code := .staleToolPolicy, message := "plan tool policy version is stale" }]
  else []

@[simp] theorem normalizeStep_id (step : PlanStep) : (v.normalizeStep step).id = step.id := by
  unfold normalizeStep
  split <;> rfl

theorem map_id_normalizeStep (steps : List PlanStep) :
    (steps.map v.normalizeStep).map PlanStep.id = steps.map PlanStep.id := by
  simp

/-- `validate` -/
def validate (plan : ChangePlan) (evidence : List RetrievedEvidence) :
    Except Error ValidationReport := do
  let graph ← v.graphIssues plan
  let steps ← plan.steps.mapM (v.validateStep evidence)
  let errors := graph ++ steps.flatten ++ v.policyIssues plan
  if errors ≠ [] then return { valid := false, errors := errors }
  return {
    valid := true
    normalizedPlan := some (plan.withSteps (plan.steps.map v.normalizeStep)
      (v.map_id_normalizeStep plan.steps)) }

/-! ## Accepted plans -/

/-- What a step has passed if nothing is wrong with it. -/
structure StepAccepted (evidence : List RetrievedEvidence) (step : PlanStep) : Prop where
  registered : v.tools.contains step.tool.name step.tool.version = true
  arguments : ∃ coerced, v.tools.coerceArguments v.runtime step.tool.name step.tool.version
    (.ofFields step.arguments) = .ok coerced
  cited : ∀ reference ∈ step.evidenceRefs, ∃ item, citedEvidence evidence reference = some item ∧
    ((v.policies.get step.tool.name step.tool.version).isSome → item.conflict = false)
  trusted : ∀ policy, v.policies.get step.tool.name step.tool.version = some policy →
    policy.sideEffecting = true → hasTrustedEvidence step policy evidence = true
  compensated : ∀ policy, v.policies.get step.tool.name step.tool.version = some policy →
    policy.compensationRequired = true → ∃ tool, step.compensationTool = some tool ∧
      step.compensationIntent.getD "" ≠ "" ∧ v.tools.contains tool.name tool.version = true

/-- What a plan has passed if nothing is wrong with it. -/
structure PlanAccepted (plan : ChangePlan) (evidence : List RetrievedEvidence) : Prop where
  known : ∀ step ∈ plan.steps, ∀ dependency ∈ step.dependsOn,
    dependency ∈ plan.steps.map PlanStep.id
  acyclic : Kahn.findCycle (planGraph plan) = none
  steps : ∀ step ∈ plan.steps, v.StepAccepted evidence step
  policyVersion : plan.toolPolicyVersion = v.policies.version

section

variable {v} {evidence : List RetrievedEvidence} {step : PlanStep}

theorem validateCitations_eq_nil_iff : v.validateCitations step evidence = [] ↔
    ∀ reference ∈ step.evidenceRefs, ∃ item, citedEvidence evidence reference = some item := by
  rw [validateCitations, List.flatMap_eq_nil_iff]
  refine forall₂_congr fun reference _ => ?_
  cases citedEvidence evidence reference with
  | none => simp
  | some item => simp

theorem referenceIssues_eq_nil_iff {reference : EvidenceRef} :
    v.referenceIssues step evidence reference = [] ↔
      ∃ item, citedEvidence evidence reference = some item ∧ item.conflict = false := by
  unfold referenceIssues
  cases citedEvidence evidence reference with
  | none => simp
  | some item => simp

theorem validateEvidence_eq_nil_iff {policy : PlanningToolPolicy} :
    v.validateEvidence step policy evidence = [] ↔
      (∀ reference ∈ step.evidenceRefs, ∃ item,
        citedEvidence evidence reference = some item ∧ item.conflict = false) ∧
      (policy.sideEffecting = true → hasTrustedEvidence step policy evidence = true) := by
  rw [validateEvidence, List.append_eq_nil_iff, List.flatMap_eq_nil_iff]
  simp only [referenceIssues_eq_nil_iff]
  refine and_congr_right fun _ => ?_
  cases policy.sideEffecting <;> cases hasTrustedEvidence step policy evidence <;> simp

theorem validateCompensation_eq_nil_iff {policy : PlanningToolPolicy} :
    v.validateCompensation step policy = [] ↔ (policy.compensationRequired = true →
      ∃ tool, step.compensationTool = some tool ∧ step.compensationIntent.getD "" ≠ "" ∧
        v.tools.contains tool.name tool.version = true) := by
  unfold validateCompensation
  cases policy.compensationRequired with
  | false => simp
  | true =>
      cases step.compensationTool with
      | none => simp
      | some tool =>
          by_cases hintent : step.compensationIntent.getD "" = ""
          · simp [hintent]
          · cases hcontains : v.tools.contains tool.name tool.version <;> simp [hintent, hcontains]

theorem validateArguments_eq_ok_nil_iff : v.validateArguments step = .ok [] ↔
    ∃ coerced, v.tools.coerceArguments v.runtime step.tool.name step.tool.version
      (.ofFields step.arguments) = .ok coerced := by
  unfold validateArguments
  cases v.tools.coerceArguments v.runtime step.tool.name step.tool.version
      (.ofFields step.arguments) with
  | ok coerced => simp
  | error error => cases herror : error.isValueError <;> simp [herror]

/-- Nothing is wrong with a step exactly when it is accepted. -/
theorem validateStep_eq_ok_nil_iff :
    v.validateStep evidence step = .ok [] ↔ v.StepAccepted evidence step := by
  unfold validateStep
  cases hregistered : v.tools.contains step.tool.name step.tool.version with
  | false =>
      refine ⟨fun h => by simp at h, fun h => ?_⟩
      rw [h.registered] at hregistered
      cases hregistered
  | true =>
      rw [if_neg (by simp)]
      -- only a tool with a policy is asked for evidence and compensation
      cases hpolicy : v.policies.get step.tool.name step.tool.version with
      | none =>
          simp only [Except.bind_eq_ok_iff, Except.pure_eq_ok_iff, List.append_eq_nil_iff]
          constructor
          · rintro ⟨invalid, harguments, rfl, hcited⟩
            refine ⟨hregistered, validateArguments_eq_ok_nil_iff.mp harguments, ?_, ?_, ?_⟩
            · intro reference hreference
              obtain ⟨item, hitem⟩ := validateCitations_eq_nil_iff.mp hcited reference hreference
              exact ⟨item, hitem, by simp [hpolicy]⟩
            · simp [hpolicy]
            · simp [hpolicy]
          · intro h
            refine ⟨[], validateArguments_eq_ok_nil_iff.mpr h.arguments, rfl, ?_⟩
            refine validateCitations_eq_nil_iff.mpr fun reference hreference => ?_
            obtain ⟨item, hitem, _⟩ := h.cited reference hreference
            exact ⟨item, hitem⟩
      | some policy =>
          simp only [Except.bind_eq_ok_iff, Except.pure_eq_ok_iff, List.append_eq_nil_iff]
          constructor
          · rintro ⟨invalid, harguments, ⟨rfl, hcompensated⟩, hevidence⟩
            obtain ⟨hcited, htrusted⟩ := validateEvidence_eq_nil_iff.mp hevidence
            refine ⟨hregistered, validateArguments_eq_ok_nil_iff.mp harguments, ?_, ?_, ?_⟩
            · intro reference hreference
              obtain ⟨item, hitem, hconflict⟩ := hcited reference hreference
              exact ⟨item, hitem, fun _ => hconflict⟩
            · intro other hother
              obtain rfl := Option.some.inj (hpolicy.symm.trans hother)
              exact htrusted
            · intro other hother
              obtain rfl := Option.some.inj (hpolicy.symm.trans hother)
              exact validateCompensation_eq_nil_iff.mp hcompensated
          · intro h
            refine ⟨[], validateArguments_eq_ok_nil_iff.mpr h.arguments, ⟨rfl, ?_⟩, ?_⟩
            · exact validateCompensation_eq_nil_iff.mpr (h.compensated policy hpolicy)
            · refine validateEvidence_eq_nil_iff.mpr ⟨fun reference hreference => ?_,
                h.trusted policy hpolicy⟩
              obtain ⟨item, hitem, hconflict⟩ := h.cited reference hreference
              exact ⟨item, hitem, hconflict (by simp [hpolicy])⟩

theorem mapM_eq_ok_flatten_nil_iff {α β : Type} {f : α → Except Error (List β)} {xs : List α} :
    (∃ found, xs.mapM f = .ok found ∧ found.flatten = []) ↔ ∀ x ∈ xs, f x = .ok [] := by
  induction xs with
  | nil => exact ⟨fun _ => List.forall_mem_nil _, fun _ => ⟨[], rfl, rfl⟩⟩
  | cons x rest ih =>
      rw [List.forall_mem_cons, ← ih]
      simp only [List.mapM_cons, Except.bind_eq_ok_iff, Except.pure_eq_ok_iff]
      constructor
      · rintro ⟨_, ⟨found, hx, others, hothers, rfl⟩, hflat⟩
        obtain ⟨rfl, hflat⟩ := List.append_eq_nil_iff.mp (List.flatten_cons ▸ hflat)
        exact ⟨hx, others, hothers, hflat⟩
      · rintro ⟨hx, others, hothers, hflat⟩
        exact ⟨[] :: others, ⟨[], hx, others, hothers, rfl⟩, by simpa using hflat⟩

variable {plan : ChangePlan}

theorem dependencyIssues_eq_nil_iff : v.dependencyIssues plan = [] ↔
    ∀ step ∈ plan.steps, ∀ dependency ∈ step.dependsOn, dependency ∈ plan.steps.map PlanStep.id := by
  rw [dependencyIssues, List.flatMap_eq_nil_iff]
  refine forall₂_congr fun step _ => ?_
  rw [List.map_eq_nil_iff, List.filter_eq_nil_iff]
  simp only [decide_eq_true_eq, not_not]

theorem cycleIssues_eq_ok_nil_iff :
    cycleIssues plan = .ok [] ↔ Kahn.findCycle (planGraph plan) = none := by
  unfold cycleIssues
  split
  case h_1 hcycle => simp [hcycle]
  case h_2 hcycle => simp [hcycle]
  case h_3 hcycle => simp [hcycle]

theorem graphIssues_eq_ok_nil_iff : v.graphIssues plan = .ok [] ↔
    (∀ step ∈ plan.steps, ∀ dependency ∈ step.dependsOn,
      dependency ∈ plan.steps.map PlanStep.id) ∧ Kahn.findCycle (planGraph plan) = none := by
  rw [← dependencyIssues_eq_nil_iff (v := v), ← cycleIssues_eq_ok_nil_iff, graphIssues]
  split
  case isTrue hknown => simp [hknown]
  case isFalse hunknown => simp [hunknown]

theorem policyIssues_eq_nil_iff :
    v.policyIssues plan = [] ↔ plan.toolPolicyVersion = v.policies.version := by
  unfold policyIssues
  split
  case isTrue hstale => simpa using hstale
  case isFalse hcurrent => simpa using hcurrent

/-- The report on a plan that is accepted. -/
def acceptingReport (v : PlanValidator) (plan : ChangePlan) : ValidationReport where
  valid := true
  normalizedPlan := some (plan.withSteps (plan.steps.map v.normalizeStep)
    (v.map_id_normalizeStep plan.steps))

/-- A report is valid exactly when the plan is accepted, and says how it is normalized. -/
theorem validate_valid_iff {report : ValidationReport} :
    (v.validate plan evidence = .ok report ∧ report.valid = true) ↔
      v.PlanAccepted plan evidence ∧ report = v.acceptingReport plan := by
  simp only [validate, Except.bind_eq_ok_iff]
  constructor
  · rintro ⟨⟨graph, hgraph, found, hfound, h⟩, hvalid⟩
    split at h
    · obtain rfl := Except.pure_eq_ok_iff.mp h
      cases hvalid
    case isFalse hnil =>
      simp only [ne_eq, not_not, List.append_eq_nil_iff] at hnil
      obtain ⟨⟨rfl, hflat⟩, hstale⟩ := hnil
      obtain ⟨hknown, hacyclic⟩ := graphIssues_eq_ok_nil_iff.mp hgraph
      refine ⟨⟨hknown, hacyclic, fun step hstep => ?_, policyIssues_eq_nil_iff.mp hstale⟩,
        (Except.pure_eq_ok_iff.mp h).symm⟩
      exact validateStep_eq_ok_nil_iff.mp
        (mapM_eq_ok_flatten_nil_iff.mp ⟨found, hfound, hflat⟩ step hstep)
  · rintro ⟨haccepted, rfl⟩
    obtain ⟨found, hfound, hflat⟩ := mapM_eq_ok_flatten_nil_iff.mpr fun step hstep =>
      validateStep_eq_ok_nil_iff.mpr (haccepted.steps step hstep)
    have hgraph : v.graphIssues plan = .ok [] :=
      graphIssues_eq_ok_nil_iff.mpr ⟨haccepted.known, haccepted.acyclic⟩
    refine ⟨⟨[], hgraph, found, hfound, ?_⟩, rfl⟩
    rw [hflat, policyIssues_eq_nil_iff.mpr haccepted.policyVersion, if_neg (by simp)]
    rfl

end

end PlanValidator

/-! ## Nothing is raised -/

/-- What is relied on of the runtime: texts can be sorted. -/
def Runtime.SortsTexts (runtime : Runtime) : Prop :=
  ∀ texts : List String, ∃ sorted, runtime.sorted (texts.map .str) = .ok sorted

/-- Among fields with names, only names are picked. -/
theorem exists_texts_filterMap {g : Value × Value → Option Value}
    (hg : ∀ name value, g (.str name, value) = none ∨ g (.str name, value) = some (.str name))
    (fields : List (String × Value)) : ∃ texts : List String,
      (fields.map fun field => (Value.str field.1, field.2)).filterMap g = texts.map .str := by
  induction fields with
  | nil => exact ⟨[], rfl⟩
  | cons field rest ih =>
      obtain ⟨texts, htexts⟩ := ih
      rcases hg field.1 field.2 with hnone | hsome
      · exact ⟨texts, by rw [List.map_cons, List.filterMap_cons_none hnone, htexts]⟩
      · exact ⟨field.1 :: texts, by rw [List.map_cons, List.filterMap_cons_some hsome, htexts]; rfl⟩

section

variable {runtime : Runtime} {label : String} {modelType : ModelType}

theorem Runtime.SortsTexts.sorted_fails (hsorts : runtime.SortsTexts) {P : Error → Prop}
    {g : Value × Value → Option Value}
    (hg : ∀ name value, g (.str name, value) = none ∨ g (.str name, value) = some (.str name))
    (fields : List (String × Value)) : Except.Fails P
      (runtime.sorted ((fields.map fun field => (Value.str field.1, field.2)).filterMap g)) := by
  obtain ⟨texts, htexts⟩ := exists_texts_filterMap hg fields
  obtain ⟨sorted, hsorted⟩ := hsorts texts
  rw [htexts, hsorted]
  exact Except.fails_ok

theorem ToolRegistry.rejectUnexpectedFields_fails (hsorts : runtime.SortsTexts)
    (fields : List (String × Value)) : Except.Fails (fun error => error.isValueError = true)
      (rejectUnexpectedFields runtime label
        (fields.map fun field => (.str field.1, field.2)) modelType) := by
  unfold rejectUnexpectedFields
  refine (hsorts.sorted_fails (fun name value => ?_) fields).bind fun unexpected => ?_
  · dsimp only
    split
    · exact .inl rfl
    · exact .inr rfl
  · split
    · exact Except.fails_error rfl
    · exact Except.fails_ok

theorem ToolRegistry.validateModel_fails (payload : List (Value × Value)) :
    Except.Fails (fun error => error.isValueError = true)
      (validateModel label modelType payload) := by
  unfold validateModel
  split
  · exact Except.fails_ok
  · exact Except.fails_error rfl

/-- Arguments by name are refused with a `ValueError` only. -/
theorem ToolRegistry.coerceArguments_fails (hsorts : runtime.SortsTexts)
    {registry : ToolRegistry} {name version : String} (hcontains : registry.contains name version)
    (fields : List (String × Value)) : Except.Fails (fun error => error.isValueError = true)
      (registry.coerceArguments runtime name version (.ofFields fields)) := by
  obtain ⟨descriptor, hdescriptor⟩ := Option.isSome_iff_exists.mp hcontains
  have hfound : registry.descriptorFor name version = .ok descriptor := by
    rw [descriptorFor, hdescriptor]
  unfold coerceArguments
  rw [Except.bind_of_eq_ok hfound]
  show Except.Fails _ (if containsUnavailableSecretRef (.ofFields fields) then _ else _)
  split
  · exact Except.fails_error rfl
  · exact (rejectUnexpectedFields_fails hsorts fields).bind fun _ => validateModel_fails _

end

namespace PlanValidator

variable {v : PlanValidator}

theorem exists_validateArguments (hsorts : v.runtime.SortsTexts) {step : PlanStep}
    (hregistered : v.tools.contains step.tool.name step.tool.version = true) :
    ∃ issues, v.validateArguments step = .ok issues := by
  have hfails := ToolRegistry.coerceArguments_fails hsorts hregistered step.arguments
  unfold validateArguments
  cases hcoerce : v.tools.coerceArguments v.runtime step.tool.name step.tool.version
      (.ofFields step.arguments) with
  | ok coerced => exact ⟨[], rfl⟩
  | error error => exact ⟨_, if_pos (hfails error hcoerce)⟩

theorem exists_validateStep (hsorts : v.runtime.SortsTexts) (evidence : List RetrievedEvidence)
    (step : PlanStep) : ∃ issues, v.validateStep evidence step = .ok issues := by
  unfold validateStep
  split
  · exact ⟨_, rfl⟩
  case isFalse hregistered =>
    have hcontains : v.tools.contains step.tool.name step.tool.version = true := by
      simpa using hregistered
    obtain ⟨invalid, hinvalid⟩ := exists_validateArguments hsorts hcontains
    rw [hinvalid]
    cases v.policies.get step.tool.name step.tool.version with
    | none => exact ⟨_, rfl⟩
    | some policy => exact ⟨_, rfl⟩

theorem exists_graphIssues (v : PlanValidator) (plan : ChangePlan) :
    ∃ issues, v.graphIssues plan = .ok issues := by
  have hkeys : (Kahn.nodes (planGraph plan)).Nodup := by
    rw [Kahn.nodes, planGraph, List.map_map]
    exact plan.ids_nodup
  unfold graphIssues
  split
  case isFalse => exact ⟨_, rfl⟩
  case isTrue =>
    unfold cycleIssues
    split
    case h_1 => exact ⟨_, rfl⟩
    case h_2 hcycle => exact absurd hcycle (Kahn.findCycle_ne_some_nil hkeys)
    case h_3 => exact ⟨_, rfl⟩

/-- A report is always given. -/
theorem exists_validate (hsorts : v.runtime.SortsTexts) (plan : ChangePlan)
    (evidence : List RetrievedEvidence) : ∃ report, v.validate plan evidence = .ok report := by
  obtain ⟨graph, hgraph⟩ := v.exists_graphIssues plan
  obtain ⟨steps, hsteps⟩ : ∃ steps, plan.steps.mapM (v.validateStep evidence) = .ok steps := by
    induction plan.steps with
    | nil => exact ⟨[], rfl⟩
    | cons step rest ih =>
        obtain ⟨issues, hissues⟩ := exists_validateStep hsorts evidence step
        obtain ⟨others, hothers⟩ := ih
        exact ⟨issues :: others, by rw [List.mapM_cons, hissues, hothers]; rfl⟩
  unfold validate
  rw [Except.bind_of_eq_ok hgraph, Except.bind_of_eq_ok hsteps]
  dsimp only
  split
  · exact ⟨_, rfl⟩
  · exact ⟨_, rfl⟩

end PlanValidator

end ChangePilot
