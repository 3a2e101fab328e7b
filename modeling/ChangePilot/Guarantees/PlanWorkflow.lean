import ChangePilot.Domain.Acceptance
import ChangePilot.Domain.Digests
import ChangePilot.Guarantees.Validation
import ChangePilot.Planning.Mapping

/-!
# Valid plans and workflows

The validator of plans and the parser of workflows check for themselves.  A valid plan
becomes a workflow exactly if it keeps what only the parser asks for: names that are not
blank, the limits on steps and edges, compensation tools that are registered, and
arguments that can be written as JSON; and it becomes a workflow with its own arguments
exactly if the tools coerce them to what they are.

What the parser reads off a planned step is settled first (`PlanStep.readFrom_payload_iff`),
then for all steps by induction (`readsSteps_payload_iff`).  So the definition that the
payload is parsed to has the steps of the plan (`ChangePlan.fromMapping_steps`), and what is
left to compare are the arguments.
-/

namespace ChangePilot

/-! ## The step of a planned step -/

section

variable (runtime : Runtime) (registry : ToolRegistry)

def PlanToolRef.reference (tool : PlanToolRef) : ToolReference := ⟨tool.name, tool.version⟩

/-- The reference passes `_parse_tool_reference`. -/
def PlanToolRef.Named (tool : PlanToolRef) : Prop :=
  runtime.isBlank tool.name = false ∧ runtime.isBlank tool.version = false

/-- The arguments as the payload has them. -/
def PlanStep.rawArguments (step : PlanStep) : List (Value × Value) :=
  step.arguments.map fun field => (.str field.1, field.2)

/-- The step that is made of a planned step, once its arguments are coerced. -/
def PlanStep.definition (step : PlanStep) (arguments : List (Value × Value)) :
    StepDefinition where
  id := step.id
  tool := step.tool.reference
  arguments := freezeValue (.dict arguments)
  dependsOn := step.dependsOn.dedup.insertionSort (· ≤ ·)
  risk := step.risk.value
  retry := default
  compensationTool := step.compensationTool.map PlanToolRef.reference

/-- The step passes what `from_mapping` asks of a step, apart from its arguments. -/
structure PlanStep.Mappable (step : PlanStep) : Prop where
  id : runtime.isBlank step.id = false
  tool : step.tool.Named runtime
  registered : registry.contains step.tool.name step.tool.version = true
  dependsOn : ∀ d ∈ step.dependsOn, runtime.isBlank d = false
  compensationTool : ∀ tool, step.compensationTool = some tool →
    tool.Named runtime ∧ registry.contains tool.name tool.version = true

end

section

variable {runtime : Runtime} {registry : ToolRegistry}

theorem ensureRegistered_eq_ok_iff {stepId field : String} {tool : ToolReference} :
    ensureRegistered registry stepId field tool = .ok () ↔
      registry.contains tool.name tool.version = true := by
  unfold ensureRegistered
  split <;> simp_all

theorem parseToolReference_modelDump {stepId field : String} {tool : PlanToolRef}
    {parsed : ToolReference} :
    parseToolReference runtime stepId field tool.modelDump = .ok parsed ↔
      tool.Named runtime ∧ parsed = tool.reference := by
  simp only [parseToolReference, Except.bind_eq_ok_iff, requireString_eq_ok_iff,
    Except.pure_eq_ok_iff]
  constructor
  · rintro ⟨mapping, hmapping, name, ⟨hname, hname'⟩, version, ⟨hversion, hversion'⟩, rfl⟩
    obtain rfl := Except.ok.inj hmapping
    obtain rfl := Value.str.inj hname
    obtain rfl := Value.str.inj hversion
    exact ⟨⟨hname', hversion'⟩, rfl⟩
  · rintro ⟨⟨hname, hversion⟩, rfl⟩
    exact ⟨_, rfl, tool.name, ⟨rfl, hname⟩, tool.version, ⟨rfl, hversion⟩, rfl⟩

theorem parseOptionalToolReference_modelDump {stepId : String} {tool : Option PlanToolRef}
    {parsed : Option ToolReference} :
    parseOptionalToolReference runtime registry stepId
        ((tool.map PlanToolRef.modelDump).getD .none) = .ok parsed ↔
      (∀ named, tool = some named →
        named.Named runtime ∧ registry.contains named.name named.version = true) ∧
      parsed = tool.map PlanToolRef.reference := by
  cases tool with
  | none =>
      show Except.ok none = Except.ok parsed ↔ _
      exact ⟨fun h => ⟨nofun, (Except.ok.inj h).symm⟩, fun h => congrArg Except.ok h.2.symm⟩
  | some tool =>
      have hdump : parseOptionalToolReference runtime registry stepId tool.modelDump = (do
          let tool ← parseToolReference runtime stepId "compensation_tool" tool.modelDump
          ensureRegistered registry stepId "compensation_tool" tool
          return some tool) := rfl
      simp only [Option.map_some, Option.getD_some, hdump, Except.bind_eq_ok_iff,
        parseToolReference_modelDump, Except.pure_eq_ok_iff, Option.some.injEq, forall_eq']
      constructor
      · rintro ⟨_, ⟨hnamed, rfl⟩, ⟨⟩, hregistered, rfl⟩
        exact ⟨⟨hnamed, ensureRegistered_eq_ok_iff.mp hregistered⟩, rfl⟩
      · rintro ⟨⟨hnamed, hregistered⟩, rfl⟩
        exact ⟨_, ⟨hnamed, rfl⟩, (), ensureRegistered_eq_ok_iff.mpr hregistered, rfl⟩

theorem requireStringSequence_texts {stepId : Option String} {field : String}
    {texts parsed : List String} :
    requireStringSequence runtime stepId field (.list (texts.map .str)) = .ok parsed ↔
      (∀ text ∈ texts, runtime.isBlank text = false) ∧
        parsed = texts.dedup.insertionSort (· ≤ ·) := by
  simp only [requireStringSequence, Except.bind_eq_ok_iff, mapM_requireString_eq_ok_iff,
    Except.pure_eq_ok_iff]
  constructor
  · rintro ⟨normalized, ⟨hsame, hall⟩, rfl⟩
    obtain rfl := List.map_injective_iff.mpr (fun _ _ => Value.str.inj) hsame
    exact ⟨hall, rfl⟩
  · rintro ⟨hall, rfl⟩
    exact ⟨texts, ⟨rfl, hall⟩, rfl⟩

end

section

variable {runtime : Runtime} {registry : ToolRegistry}

/-- What is read off the payload of a planned step. -/
theorem PlanStep.readFrom_payload_iff (hrisks : ∀ risk : ToolRisk,
    runtime.isBlank risk.value = false) {planStep : PlanStep} {mapping : List (Value × Value)}
    (hmapping : ChangePilot.requireMapping none "steps" planStep.payload = .ok mapping)
    {step : StepDefinition} : step.ReadFrom runtime registry mapping ↔
      planStep.Mappable runtime registry ∧ ∃ arguments,
        coerceStepArguments runtime registry planStep.id planStep.tool.reference
          planStep.rawArguments = .ok arguments ∧
        step = planStep.definition arguments := by
  obtain rfl := Except.ok.inj hmapping
  -- the compensation tool comes last, and may be left out
  have hcompensation (entries : List (Value × Value))
      (hentries : ChangePilot.requireMapping none "steps" planStep.payload = .ok entries) :
      Value.field entries "compensation_tool" .none =
        (planStep.compensationTool.map PlanToolRef.modelDump).getD .none := by
    obtain rfl := Except.ok.inj hentries
    cases planStep.compensationTool <;> rfl
  constructor
  · intro h
    obtain ⟨hid, hid'⟩ := requireString_eq_ok_iff.mp h.id
    have hid := Value.str.inj hid
    obtain ⟨htool, htool'⟩ := parseToolReference_modelDump.mp h.tool
    obtain ⟨rawArguments, arguments, hraw, harguments, hfrozen⟩ := h.arguments
    obtain rfl : planStep.rawArguments = rawArguments := Except.ok.inj hraw
    obtain ⟨hdepends, hdepends'⟩ := requireStringSequence_texts.mp h.dependsOn
    obtain ⟨hrisk, -⟩ := requireString_eq_ok_iff.mp h.risk
    have hcompensated := h.compensationTool
    rw [hcompensation _ hmapping, parseOptionalToolReference_modelDump] at hcompensated
    have hregistered := ensureRegistered_eq_ok_iff.mp h.registered
    rw [htool'] at hregistered harguments
    rw [← hid] at hid' harguments
    refine ⟨⟨hid', htool, hregistered, hdepends, hcompensated.1⟩, arguments, harguments, ?_⟩
    obtain ⟨id, tool, args, dependsOn, risk, retry, compensationTool⟩ := step
    obtain rfl : default = retry := Except.ok.inj h.retry
    obtain rfl := hid
    obtain rfl := htool'
    obtain rfl := hfrozen
    obtain rfl := hdepends'
    obtain rfl := Value.str.inj hrisk
    obtain rfl := hcompensated.2
    rfl
  · rintro ⟨h, arguments, harguments, rfl⟩
    exact {
      id := requireString_eq_ok_iff.mpr ⟨rfl, h.id⟩
      tool := parseToolReference_modelDump.mpr ⟨h.tool, rfl⟩
      registered := ensureRegistered_eq_ok_iff.mpr h.registered
      arguments := ⟨_, arguments, rfl, harguments, rfl⟩
      dependsOn := requireStringSequence_texts.mpr ⟨h.dependsOn, rfl⟩
      risk := requireString_eq_ok_iff.mpr ⟨rfl, hrisks _⟩
      retry := rfl
      compensationTool := by
        rw [hcompensation _ hmapping, parseOptionalToolReference_modelDump]
        exact ⟨h.compensationTool, rfl⟩ }

end

/-! ## The workflow of a plan -/

section

variable (runtime : Runtime) (registry : ToolRegistry)

/-- The arguments of the step, coerced by its tool. -/
def PlanStep.coerced (step : PlanStep) : Except Error (List (Value × Value)) :=
  coerceStepArguments runtime registry step.id step.tool.reference step.rawArguments

/-- The steps of the workflow, in the order of the plan. -/
def ChangePlan.workflowSteps (plan : ChangePlan) : List StepDefinition :=
  plan.steps.map fun step => step.definition ((step.coerced runtime registry).toOption.getD [])

/-- What `from_mapping` asks of the payload of a plan, and the validator does not. -/
structure ChangePlan.Parsable (plan : ChangePlan) : Prop where
  planId : runtime.isBlank plan.planId = false
  steps : ∀ step ∈ plan.steps, step.Mappable runtime registry
  coerced : ∀ step ∈ plan.steps, ∃ arguments, step.coerced runtime registry = .ok arguments
  bounded : plan.steps.length ≤ maxSteps
  edges : (plan.steps.map fun step => step.dependsOn.dedup.length).sum ≤ maxEdges
  json : ∃ digest, calculateDigest runtime plan.planId plan.version
    (sortSteps (plan.workflowSteps runtime registry)) = .ok digest

/-- Coercion leaves the arguments of the step what they are, up to the order of the keys of a
mapping. -/
def PlanStep.KeepsArguments (step : PlanStep) : Prop :=
  ∀ arguments, step.coerced runtime registry = .ok arguments →
    (freezeValue (.dict arguments)).Equals (freezeValue (.dict step.rawArguments))

/-- The payload is parsed, and the tools leave the arguments what they are. -/
structure ChangePlan.Mappable (plan : ChangePlan) : Prop where
  parsable : plan.Parsable runtime registry
  arguments : ∀ step ∈ plan.steps, step.KeepsArguments runtime registry

end

/-- The step is the planned one: its id, its tool, its dependencies, and its arguments, which
are frozen. -/
structure PlanStep.Becomes (planStep : PlanStep) (step : StepDefinition) : Prop where
  id : step.id = planStep.id
  tool : step.tool = planStep.tool.reference
  dependsOn : ∀ d, d ∈ step.dependsOn ↔ d ∈ planStep.dependsOn
  arguments : step.arguments.Equals (freezeValue (.dict planStep.rawArguments))

/-- The workflow has the steps of the plan. -/
structure ChangePlan.Becomes (plan : ChangePlan) (definition : WorkflowDefinition) : Prop where
  ids : (definition.steps.map StepDefinition.id).Perm (plan.steps.map PlanStep.id)
  steps : ∀ planStep ∈ plan.steps, ∃ step ∈ definition.steps, planStep.Becomes step

section

variable {runtime : Runtime} {registry : ToolRegistry} {plan : ChangePlan}

theorem readsSteps_payload_iff (hrisks : ∀ risk : ToolRisk, runtime.isBlank risk.value = false)
    (planSteps : List PlanStep) : ∀ {steps : List StepDefinition},
    ReadsSteps runtime registry (planSteps.map PlanStep.payload) steps ↔
      (∀ step ∈ planSteps, step.Mappable runtime registry ∧
        ∃ arguments, step.coerced runtime registry = .ok arguments) ∧
      steps = planSteps.map fun step =>
        step.definition ((step.coerced runtime registry).toOption.getD []) := by
  induction planSteps with
  | nil =>
      intro steps
      simp [ReadsSteps]
  | cons planStep rest ih =>
      intro steps
      unfold ReadsSteps at ih ⊢
      rw [List.map_cons, List.forall₂_cons_left_iff, List.map_cons]
      constructor
      · rintro ⟨step, others, ⟨mapping, hmapping, hread⟩, hothers, rfl⟩
        obtain ⟨hmappable, arguments, harguments, rfl⟩ :=
          (PlanStep.readFrom_payload_iff hrisks hmapping).mp hread
        obtain ⟨hall, rfl⟩ := ih.mp hothers
        refine ⟨List.forall_mem_cons.mpr ⟨⟨hmappable, arguments, harguments⟩, hall⟩, ?_⟩
        rw [show planStep.coerced runtime registry = .ok arguments from harguments]
        rfl
      · rintro ⟨hall, rfl⟩
        obtain ⟨⟨hmappable, arguments, harguments⟩, hrest⟩ := List.forall_mem_cons.mp hall
        refine ⟨_, _, ⟨_, rfl, ?_⟩, ih.mpr ⟨hrest, rfl⟩, rfl⟩
        rw [harguments]
        exact (PlanStep.readFrom_payload_iff hrisks rfl).mpr ⟨hmappable, arguments, harguments, rfl⟩

theorem ChangePlan.map_id_workflowSteps :
    (plan.workflowSteps runtime registry).map StepDefinition.id = plan.steps.map PlanStep.id := by
  rw [workflowSteps, List.map_map]
  rfl

theorem ChangePlan.edges_workflowSteps :
    ((plan.workflowSteps runtime registry).map fun step => step.dependsOn.length).sum =
      (plan.steps.map fun step => step.dependsOn.dedup.length).sum := by
  rw [workflowSteps, List.map_map]
  refine congrArg List.sum (List.map_congr_left fun step _ => ?_)
  exact List.length_insertionSort _ _

/-- The definition that the payload of a plan is parsed to. -/
theorem ChangePlan.Parsable.exists_definition (h : plan.Parsable runtime registry)
    (hknown : ∀ step ∈ plan.steps, ∀ d ∈ step.dependsOn, d ∈ plan.steps.map PlanStep.id)
    (hacyclic : Kahn.findCycle (PlanValidator.planGraph plan) = none) :
    ∃ definition : WorkflowDefinition, definition.definitionId = plan.planId ∧
      definition.version = plan.version ∧
      definition.steps = sortSteps (plan.workflowSteps runtime registry) ∧
      calculateDigest runtime definition.definitionId definition.version definition.steps =
        .ok definition.digest := by
  obtain ⟨digest, hdigest⟩ := h.json
  have hnodup : ((plan.workflowSteps runtime registry).map StepDefinition.id).Nodup :=
    ChangePlan.map_id_workflowSteps ▸ plan.ids_nodup
  -- the steps of the workflow have the dependencies of the plan, sorted
  have hdepends : ∀ step ∈ sortSteps (plan.workflowSteps runtime registry), ∀ d ∈ step.dependsOn,
      ∃ planStep ∈ plan.steps, planStep.id = step.id ∧ d ∈ planStep.dependsOn := by
    intro step hstep d hd
    obtain ⟨planStep, hplanStep, rfl⟩ := List.mem_map.mp (mem_sortSteps.mp hstep)
    exact ⟨planStep, hplanStep, rfl, List.mem_dedup.mp ((List.mem_insertionSort _).mp hd)⟩
  refine ⟨{ definitionId := plan.planId, version := plan.version,
            steps := sortSteps (plan.workflowSteps runtime registry), digest := digest,
            steps_sorted := pairwise_sortSteps hnodup, dependencies_known := ?_, acyclic := ?_ },
    rfl, rfl, rfl, hdigest⟩
  · intro step hstep d hd
    obtain ⟨planStep, hplanStep, _, hd⟩ := hdepends step hstep d hd
    have hmem := hknown planStep hplanStep d hd
    rw [← ChangePlan.map_id_workflowSteps, List.mem_map] at hmem
    obtain ⟨other, hother, hid⟩ := hmem
    exact ⟨other, mem_sortSteps.mpr hother, hid⟩
  · have hkeys : (Kahn.nodes (PlanValidator.planGraph plan)).Nodup := by
      rw [Kahn.nodes, PlanValidator.planGraph, List.map_map]
      exact plan.ids_nodup
    -- the validator's order puts every dependency first
    obtain ⟨rank, hrank⟩ := Kahn.exists_rank_of_findCycle_eq_none hkeys hacyclic
    refine ⟨rank, fun step hstep d hd => ?_⟩
    obtain ⟨planStep, hplanStep, hid, hd⟩ := hdepends step hstep d hd
    have hnode : (planStep.id, planStep.dependsOn) ∈ PlanValidator.planGraph plan :=
      List.mem_map.mpr ⟨planStep, hplanStep, rfl⟩
    rw [← hid]
    refine hrank _ (List.mem_map.mpr ⟨_, hnode, rfl⟩) d ?_
    rw [Kahn.depsOf_of_mem hkeys hnode]
    exact hd

end

section

variable {runtime : Runtime} {registry : ToolRegistry} {plan : ChangePlan}

theorem requirePositiveInt_ofNat {stepId : Option String} {field : String} {number : ℕ}
    (h : 1 ≤ number) : requirePositiveInt stepId field (.int number) = .ok number := by
  rw [requirePositiveInt, if_neg (by omega)]
  rfl

/-- The definition that is made of the payload of a plan has the steps of the plan. -/
theorem ChangePlan.fromMapping_steps
    (hrisks : ∀ risk : ToolRisk, runtime.isBlank risk.value = false)
    {definition : WorkflowDefinition}
    (h : WorkflowDefinition.fromMapping runtime registry plan.payload = .ok definition) :
    plan.Parsable runtime registry ∧
      definition.steps = sortSteps (plan.workflowSteps runtime registry) := by
  obtain ⟨mapping, rawSteps, steps, hmapping, hread⟩ := fromMapping_eq_ok_iff.mp h
  obtain rfl := Except.ok.inj hmapping
  obtain rfl : plan.steps.map PlanStep.payload = rawSteps := Value.list.inj hread.listed
  obtain ⟨hsteps, hworkflow⟩ := (readsSteps_payload_iff hrisks plan.steps).mp hread.read
  obtain rfl : steps = plan.workflowSteps runtime registry := hworkflow
  obtain ⟨hid, hid'⟩ := requireString_eq_ok_iff.mp hread.definitionId
  have hplanId : plan.planId = definition.definitionId := Value.str.inj hid
  have hversion : plan.version = definition.version :=
    Except.ok.inj ((requirePositiveInt_ofNat plan.version_pos).symm.trans hread.version)
  have hdigest := hread.digest
  rw [hread.steps, ← hplanId, ← hversion] at hdigest
  refine ⟨?_, hread.steps⟩
  exact {
    planId := hplanId ▸ hid'
    steps := fun step hstep => (hsteps step hstep).1
    coerced := fun step hstep => (hsteps step hstep).2
    bounded := by simpa using hread.bounded
    edges := ChangePlan.edges_workflowSteps ▸ hread.edges
    json := ⟨_, hdigest⟩ }

/-- The step that is made of a planned one. -/
theorem ChangePlan.mem_steps_of_coerced {definition : WorkflowDefinition}
    (hsteps : definition.steps = sortSteps (plan.workflowSteps runtime registry))
    {planStep : PlanStep} (hplanStep : planStep ∈ plan.steps) {arguments : List (Value × Value)}
    (harguments : planStep.coerced runtime registry = .ok arguments) :
    planStep.definition arguments ∈ definition.steps := by
  rw [hsteps, mem_sortSteps]
  refine List.mem_map.mpr ⟨planStep, hplanStep, ?_⟩
  rw [harguments]
  rfl

/-- A definition with the steps of the plan is what the plan becomes if and only if the tools
leave the arguments what they are. -/
theorem ChangePlan.becomes_iff (hparsable : plan.Parsable runtime registry)
    {definition : WorkflowDefinition}
    (hsteps : definition.steps = sortSteps (plan.workflowSteps runtime registry)) :
    plan.Becomes definition ↔ ∀ step ∈ plan.steps, step.KeepsArguments runtime registry := by
  constructor
  · intro h planStep hplanStep arguments harguments
    obtain ⟨step, hstep, hbecomes⟩ := h.steps planStep hplanStep
    -- there is one step of that id
    obtain rfl : step = planStep.definition arguments :=
      definition.eq_of_id_eq hstep (ChangePlan.mem_steps_of_coerced hsteps hplanStep harguments)
        hbecomes.id
    exact hbecomes.arguments
  · intro hkeeps
    refine ⟨?_, fun planStep hplanStep => ?_⟩
    · rw [hsteps, ← ChangePlan.map_id_workflowSteps]
      exact (perm_sortSteps _).map _
    · obtain ⟨arguments, harguments⟩ := hparsable.coerced planStep hplanStep
      refine ⟨_, ChangePlan.mem_steps_of_coerced hsteps hplanStep harguments, rfl, rfl, fun d => ?_,
        hkeeps planStep hplanStep arguments harguments⟩
      exact (List.mem_insertionSort _).trans List.mem_dedup

/-- A plan that keeps to what the parser asks for becomes a workflow. -/
theorem ChangePlan.Parsable.fromMapping
    (hrisks : ∀ risk : ToolRisk, runtime.isBlank risk.value = false)
    (h : plan.Parsable runtime registry)
    (hknown : ∀ step ∈ plan.steps, ∀ d ∈ step.dependsOn, d ∈ plan.steps.map PlanStep.id)
    (hacyclic : Kahn.findCycle (PlanValidator.planGraph plan) = none) :
    ∃ definition, WorkflowDefinition.fromMapping runtime registry plan.payload = .ok definition := by
  obtain ⟨definition, hid, hversion, hsteps, hdigest⟩ := h.exists_definition hknown hacyclic
  refine ⟨definition, fromMapping_eq_ok_iff.mpr ⟨_, plan.steps.map PlanStep.payload,
    plan.workflowSteps runtime registry, rfl, ?_⟩⟩
  exact {
    definitionId := requireString_eq_ok_iff.mpr ⟨congrArg Value.str hid.symm, hid ▸ h.planId⟩
    version := by
      rw [hversion]
      exact requirePositiveInt_ofNat plan.version_pos
    listed := rfl
    bounded := by simpa using h.bounded
    read := (readsSteps_payload_iff hrisks plan.steps).mpr
      ⟨fun step hstep => ⟨h.steps step hstep, h.coerced step hstep⟩, rfl⟩
    edges := ChangePlan.edges_workflowSteps ▸ h.edges
    steps := hsteps
    digest := hdigest }

end

/-! ## Valid plans -/

namespace WorkflowDefinitionMapper

variable {mapper : WorkflowDefinitionMapper} {plan : ChangePlan}

theorem prepareNormalized_payload {prepared : PreparedWorkflow}
    (h : mapper.prepareNormalized plan = .ok prepared) : prepared.payload = plan.payload := by
  unfold prepareNormalized at h
  split at h
  · cases h
  · obtain rfl := Except.ok.inj h
    rfl

theorem exists_prepareNormalized {definition : WorkflowDefinition}
    (h : WorkflowDefinition.fromMapping mapper.runtime mapper.tools plan.payload =
      .ok definition) :
    ∃ prepared, mapper.prepareNormalized plan = .ok prepared ∧ prepared.payload = plan.payload := by
  unfold prepareNormalized
  rw [h]
  exact ⟨_, rfl, rfl⟩

end WorkflowDefinitionMapper

/-- A plan that the validator reports valid becomes a workflow with its steps and their
arguments exactly if it is mappable. -/
theorem valid_plan_becomes_workflow_iff (mapper : WorkflowDefinitionMapper)
    (hrisks : ∀ risk : ToolRisk, mapper.runtime.isBlank risk.value = false) (plan : ChangePlan)
    (evidence : List RetrievedEvidence) (report : ValidationReport)
    (hreport : mapper.validator.validate plan evidence = .ok report)
    (hvalid : report.valid = true) :
    ∃ normalized, report.normalizedPlan = some normalized ∧
      ((∃ prepared definition, mapper.prepare normalized evidence = .ok prepared ∧
          WorkflowDefinition.fromMapping mapper.runtime mapper.tools prepared.payload =
            .ok definition ∧
          normalized.Becomes definition) ↔
        normalized.Mappable mapper.runtime mapper.tools) := by
  obtain ⟨haccepted, rfl⟩ := PlanValidator.validate_valid_iff.mp ⟨hreport, hvalid⟩
  refine ⟨_, rfl, ?_⟩
  have hnormalized := haccepted.normalized
  -- normalizing again changes nothing, so the mapper accepts the plan
  have hsame := PlanValidator.withSteps_congr plan haccepted.normalized_normalized
    (by rw [mapper.validator.map_id_normalizeStep, mapper.validator.map_id_normalizeStep])
    (mapper.validator.map_id_normalizeStep plan.steps)
  constructor
  -- what `from_mapping` has accepted could be parsed
  · rintro ⟨prepared, definition, hprepared, hdefinition, hbecomes⟩
    obtain ⟨-, hprepared⟩ := WorkflowDefinitionMapper.prepare_eq_ok_iff.mp hprepared
    have hpayload := WorkflowDefinitionMapper.prepareNormalized_payload hprepared
    rw [hpayload] at hdefinition
    obtain ⟨hparsable, hsteps⟩ := ChangePlan.fromMapping_steps hrisks (hsame ▸ hdefinition)
    exact ⟨hparsable, (ChangePlan.becomes_iff hparsable hsteps).mp hbecomes⟩
  -- what can be parsed is accepted
  · intro hmappable
    obtain ⟨definition, hdefinition⟩ :=
      hmappable.parsable.fromMapping hrisks hnormalized.known hnormalized.acyclic
    obtain ⟨prepared, hprepared, hpayload⟩ :=
      WorkflowDefinitionMapper.exists_prepareNormalized hdefinition
    obtain ⟨hparsable, hsteps⟩ := ChangePlan.fromMapping_steps hrisks hdefinition
    refine ⟨prepared, definition, ?_, hpayload ▸ hdefinition,
      (ChangePlan.becomes_iff hparsable hsteps).mpr hmappable.arguments⟩
    exact WorkflowDefinitionMapper.prepare_eq_ok_iff.mpr
      ⟨hnormalized, (congrArg mapper.prepareNormalized hsame).trans hprepared⟩

namespace Sample

/-- A mapper for the tools and policies of the validator. -/
def planMapper : WorkflowDefinitionMapper where
  runtime := canonicalRuntime
  tools := registry
  validator := planValidator

theorem isBlank_risk (risk : ToolRisk) : canonicalRuntime.isBlank risk.value = false := by
  cases risk <;> decide +kernel

end Sample

theorem valid_plan_becomes_workflow_iff_danger : ∃ report normalized,
    Sample.planMapper.validator.validate Sample.dangerPlan [Sample.dangerEvidence] = .ok report ∧
    report.normalizedPlan = some normalized ∧
    ((∃ prepared definition,
        Sample.planMapper.prepare normalized [Sample.dangerEvidence] = .ok prepared ∧
        WorkflowDefinition.fromMapping Sample.planMapper.runtime Sample.planMapper.tools
          prepared.payload = .ok definition ∧
        normalized.Becomes definition) ↔
      normalized.Mappable Sample.planMapper.runtime Sample.planMapper.tools) := by
  obtain ⟨hreport, hvalid⟩ := PlanValidator.validate_valid_iff.mpr ⟨Sample.dangerPlan_accepted, rfl⟩
  obtain ⟨normalized, hnormalized, hiff⟩ := valid_plan_becomes_workflow_iff Sample.planMapper
    Sample.isBlank_risk Sample.dangerPlan [Sample.dangerEvidence] _ hreport hvalid
  exact ⟨_, normalized, hreport, hnormalized, hiff⟩

namespace Sample

/-- A plan with a compensation tool that is not registered; no policy asks for one. -/
def unknownUndoPlan : ChangePlan where
  planId := "unknown-undo"
  version := 4
  goal := "upgrade"
  steps := [{ id := "reversible", tool := ⟨"change", "1"⟩,
              compensationTool := some ⟨"restore", "1"⟩ }]
  knowledgeSnapshotDigest := ""
  promptVersion := ""
  toolPolicyVersion := "policy-1"
  version_pos := Nat.succ_pos 3
  ids_nodup := List.nodup_singleton _

theorem unknownUndoPlan_accepted : planMapper.validator.PlanAccepted unknownUndoPlan [] where
  known := List.forall_mem_singleton.mpr (List.forall_mem_nil _)
  acyclic := by rfl
  steps := List.forall_mem_singleton.mpr {
    registered := by decide
    arguments := ⟨_, rfl⟩
    cited := List.forall_mem_nil _
    trusted := fun _ hpolicy => by cases hpolicy
    compensated := fun _ hpolicy => by cases hpolicy }
  policyVersion := rfl

end Sample

/-- The plan is valid, and no workflow is made of it. -/
theorem valid_plan_with_unknown_undo : ∃ report normalized,
    Sample.planMapper.validator.validate Sample.unknownUndoPlan [] = .ok report ∧
    report.valid = true ∧ report.normalizedPlan = some normalized ∧
    ¬ ∃ prepared, Sample.planMapper.prepare normalized [] = .ok prepared := by
  obtain ⟨hreport, hvalid⟩ :=
    PlanValidator.validate_valid_iff.mpr ⟨Sample.unknownUndoPlan_accepted, rfl⟩
  refine ⟨_, _, hreport, hvalid, rfl, ?_⟩
  rintro ⟨prepared, hprepared⟩
  obtain ⟨-, hprepared⟩ := WorkflowDefinitionMapper.prepare_eq_ok_iff.mp hprepared
  unfold WorkflowDefinitionMapper.prepareNormalized at hprepared
  split at hprepared
  · cases hprepared
  case h_2 definition hdefinition =>
    have hparsable := (ChangePlan.fromMapping_steps Sample.isBlank_risk hdefinition).1
    have hregistered := ((hparsable.steps _ List.mem_cons_self).compensationTool _ rfl).2
    exact absurd hregistered (by decide)

end ChangePilot
