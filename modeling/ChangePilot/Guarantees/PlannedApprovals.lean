import ChangePilot.Domain.Acceptance
import ChangePilot.Guarantees.ApprovalGate
import ChangePilot.Guarantees.Redaction
import ChangePilot.Planning.Mapping

/-!
# Approvals of planned steps

The workflow of a plan carries the risk of each step, and no word of whether the plan
asks for an approval: at run time a step is protected by its risk alone.  The steps of
high risk are those for which the validator itself asks for one.
-/

namespace ChangePilot

section

variable {runtime : Runtime} {registry : ToolRegistry}

/-- Each raw step is read as a step. -/
theorem ReadsSteps.exists_step {rawSteps : List Value} {steps : List StepDefinition}
    (h : ReadsSteps runtime registry rawSteps steps) {rawStep : Value}
    (hrawStep : rawStep ∈ rawSteps) : ∃ step ∈ steps, ∃ mapping,
      requireMapping none "steps" rawStep = .ok mapping ∧
        step.ReadFrom runtime registry mapping := by
  induction h with
  | nil => exact absurd hrawStep List.not_mem_nil
  | @cons head step rest steps hread _ ih =>
      rcases List.mem_cons.mp hrawStep with rfl | hrest
      · exact ⟨step, List.mem_cons_self, hread⟩
      · obtain ⟨other, hother, hread⟩ := ih hrest
        exact ⟨other, List.mem_cons_of_mem _ hother, hread⟩

/-- What is read off the payload of a planned step has its id and its risk. -/
theorem StepDefinition.ReadFrom.of_payload {planStep : PlanStep} {mapping : List (Value × Value)}
    {step : StepDefinition} (hmapping : requireMapping none "steps" planStep.payload = .ok mapping)
    (h : step.ReadFrom runtime registry mapping) :
    step.id = planStep.id ∧ step.risk = planStep.risk.value := by
  obtain rfl := Except.ok.inj hmapping
  obtain ⟨hid, -⟩ := requireString_eq_ok_iff.mp h.id
  obtain ⟨hrisk, -⟩ := requireString_eq_ok_iff.mp h.risk
  exact ⟨(Value.str.inj hid).symm, (Value.str.inj hrisk).symm⟩

/-- The workflow of a plan has a step for each of the plan's. -/
theorem ChangePlan.exists_step_of_payload {plan : ChangePlan} {definition : WorkflowDefinition}
    (h : WorkflowDefinition.fromMapping runtime registry plan.payload = .ok definition)
    {planStep : PlanStep} (hplanStep : planStep ∈ plan.steps) :
    ∃ step ∈ definition.steps, step.id = planStep.id ∧ step.risk = planStep.risk.value := by
  obtain ⟨mapping, rawSteps, steps, hmapping, hread⟩ := fromMapping_eq_ok_iff.mp h
  obtain rfl := Except.ok.inj hmapping
  have hraw : rawSteps = plan.steps.map PlanStep.payload := (Value.list.inj hread.listed).symm
  obtain ⟨step, hstep, mapping, hmapping, hfrom⟩ :=
    hread.read.exists_step (hraw ▸ List.mem_map_of_mem hplanStep)
  exact ⟨step, hread.steps ▸ mem_sortSteps.mpr hstep, hfrom.of_payload hmapping⟩

end

/-- Whatever the risk of its tool, a step of high risk is protected. -/
theorem Deployment.protects_of_risk {cfg : Deployment}
    (hcasefold : ∀ text : String, (∀ c ∈ text.toList, c.toNat < 128) →
      cfg.runtime.casefold text = text.toLower)
    {step : StepDefinition} (hrisk : step.risk = ToolRisk.high.value) : cfg.Protects step := by
  have hascii : ToolRisk.high.value.toList.all (fun c => decide (c.toNat < 128)) = true := by decide
  refine .inl ?_
  rw [hrisk, hcasefold _ fun c hc => of_decide_eq_true (List.all_eq_true.mp hascii c hc)]
  decide +kernel

/-- The forward starts of a protected step of a run are approved. -/
theorem RunView.Gated.approvedFor {cfg : Deployment} {v : RunView} (h : v.Gated cfg)
    {step : StepDefinition} (hstep : step ∈ v.definition.steps) (hprotects : cfg.Protects step)
    {before : List AuditEvent} {start : AuditEvent} (hlogged : before ++ [start] <+: v.events)
    (hstart : start.StartsForward) (hstepId : start.stepId = some step.id) :
    v.ApprovedFor cfg before step := by
  obtain ⟨other, hother, hotherId, hadmitted⟩ := h.starts before start hlogged hstart
  have hid : other.id = step.id := Option.some.inj (hotherId.symm.trans hstepId)
  obtain rfl : other = step := List.inj_on_of_nodup_map v.definition.ids_nodup hother hstep hid
  exact hadmitted.resolve_left fun hlow => Deployment.Protects.of_requiresApproval hlow hprotects

/-- A plan that is prepared becomes a workflow in which the steps of high risk are
protected: whoever runs it, no such step starts forward before a request for it is
approved. -/
theorem planned_high_risk_is_approved (cfg : Deployment)
    (hcasefold : ∀ text : String, (∀ c ∈ text.toList, c.toNat < 128) →
      cfg.runtime.casefold text = text.toLower)
    (mapper : WorkflowDefinitionMapper) (hruntime : mapper.runtime = cfg.runtime)
    (htools : mapper.tools = cfg.registry) (plan : ChangePlan) (evidence : List RetrievedEvidence)
    (prepared : PreparedWorkflow) (hprepared : mapper.prepare plan evidence = .ok prepared) :
    ∃ report normalized definition, mapper.validator.validate plan evidence = .ok report ∧
      report.normalizedPlan = some normalized ∧
      WorkflowDefinition.fromMapping cfg.runtime cfg.registry prepared.payload = .ok definition ∧
      ∀ planStep ∈ normalized.steps, planStep.risk = .high →
        ∃ step ∈ definition.steps, step.id = planStep.id ∧ cfg.Protects step ∧
          ∀ (instant : Timestamp) (actions : List Action) (runId : String) (v : RunView),
            (World.after cfg instant actions).shared.view runId = some v →
            v.definition = definition →
            ∀ before start, before ++ [start] <+: v.events → start.StartsForward →
              start.stepId = some step.id → v.ApprovedFor cfg before step := by
  obtain ⟨haccepted, hnormalized⟩ := WorkflowDefinitionMapper.prepare_eq_ok_iff.mp hprepared
  obtain ⟨hreport, -⟩ := PlanValidator.validate_valid_iff.mpr ⟨haccepted, rfl⟩
  unfold WorkflowDefinitionMapper.prepareNormalized at hnormalized
  rw [hruntime, htools] at hnormalized
  split at hnormalized
  · cases hnormalized
  case h_2 definition hdefinition =>
    obtain rfl := Except.ok.inj hnormalized
    refine ⟨_, _, definition, hreport, rfl, hdefinition, fun planStep hplanStep hhigh => ?_⟩
    obtain ⟨step, hstep, hid, hrisk⟩ := ChangePlan.exists_step_of_payload hdefinition hplanStep
    have hprotects : cfg.Protects step :=
      Deployment.protects_of_risk hcasefold (hrisk.trans (congrArg ToolRisk.value hhigh))
    refine ⟨step, hstep, hid, hprotects, ?_⟩
    rintro instant actions runId v hv rfl before start hlogged hstart hstepId
    exact ((reachable_after instant actions).gated hv).approvedFor hstep hprotects hlogged hstart
      hstepId

namespace Sample

/-- A mapper for the tools of the deployment, with a policy for none of them. -/
def mapper : WorkflowDefinitionMapper where
  runtime := runtime
  tools := registry
  validator :=
    { runtime := runtime, tools := registry,
      policies := { version := "policy-1", policies := [], tools_nodup := List.nodup_nil } }

/-- A plan of one step, for which an approval is asked, of whatever tool. -/
def cautiousPlan (name : String) : ChangePlan where
  planId := "plan"
  version := 3
  goal := "upgrade"
  steps := [{ id := "cautious", tool := ⟨name, "1"⟩, approvalRequired := true }]
  knowledgeSnapshotDigest := ""
  promptVersion := ""
  toolPolicyVersion := "policy-1"
  version_pos := Nat.succ_pos 2
  ids_nodup := List.nodup_singleton _

/-- The plan as the validator normalizes it. -/
def cautiousPlanNormalized (name : String) : ChangePlan :=
  (cautiousPlan name).withSteps ((cautiousPlan name).steps.map mapper.validator.normalizeStep)
    (mapper.validator.map_id_normalizeStep _)

theorem cautiousPlan_accepted {name : String} (h : registry.contains name "1" = true)
    (harguments : ∃ coerced, registry.coerceArguments runtime name "1" (.ofFields []) = .ok coerced) :
    mapper.validator.PlanAccepted (cautiousPlan name) [] where
  known := List.forall_mem_singleton.mpr (List.forall_mem_nil _)
  acyclic := by rfl
  steps := List.forall_mem_singleton.mpr
    { registered := h, arguments := harguments, cited := List.forall_mem_nil _
      trusted := nofun, compensated := nofun }
  policyVersion := rfl

/-- What the mapper prepares when the workflow is accepted. -/
theorem exists_prepared {name : String}
    (haccepted : mapper.validator.PlanAccepted (cautiousPlan name) [])
    (h : (WorkflowDefinition.fromMapping runtime registry
      (cautiousPlanNormalized name).payload).isOk = true) :
    ∃ prepared, mapper.prepare (cautiousPlan name) [] = .ok prepared ∧
      prepared.payload = (cautiousPlanNormalized name).payload := by
  cases hdefinition : WorkflowDefinition.fromMapping runtime registry
      (cautiousPlanNormalized name).payload with
  | error error => rw [hdefinition] at h; cases h
  | ok definition =>
      have hprepared : mapper.prepareNormalized (cautiousPlanNormalized name) = .ok {
          planId := "plan", planVersion := 3, knowledgeSnapshotDigest := ""
          definitionId := definition.definitionId, definitionVersion := definition.version
          definitionDigest := definition.digest
          payload := (cautiousPlanNormalized name).payload } := by
        unfold WorkflowDefinitionMapper.prepareNormalized
        rw [show WorkflowDefinition.fromMapping mapper.runtime mapper.tools _ = .ok definition
          from hdefinition]
        rfl
      exact ⟨_, WorkflowDefinitionMapper.prepare_eq_ok_iff.mpr ⟨haccepted, hprepared⟩, rfl⟩

end Sample

/-- The step of a plan for a dangerous tool is of high risk, whatever its own. -/
theorem planned_high_risk_is_approved_danger : ∃ prepared report normalized definition,
    Sample.mapper.prepare (Sample.cautiousPlan "danger") [] = .ok prepared ∧
      Sample.mapper.validator.validate (Sample.cautiousPlan "danger") [] = .ok report ∧
      report.normalizedPlan = some normalized ∧
      WorkflowDefinition.fromMapping Sample.runtime Sample.registry prepared.payload =
        .ok definition ∧
      ∃ planStep ∈ normalized.steps, planStep.risk = .high ∧
        ∃ step ∈ definition.steps, step.id = planStep.id ∧ Sample.deployment.Protects step := by
  have haccepted : Sample.mapper.validator.PlanAccepted (Sample.cautiousPlan "danger") [] :=
    Sample.cautiousPlan_accepted rfl ⟨_, rfl⟩
  obtain ⟨prepared, hprepared, -⟩ := Sample.exists_prepared haccepted (by decide +kernel)
  obtain ⟨report, normalized, definition, hreport, hnormalized, hdefinition, hsteps⟩ :=
    planned_high_risk_is_approved Sample.deployment
      (fun text _ => String.toList_injective ((String.toList_ofList).trans (toList_toLower text).symm))
      Sample.mapper rfl rfl (Sample.cautiousPlan "danger") [] prepared hprepared
  obtain ⟨haccepting, -⟩ := PlanValidator.validate_valid_iff.mpr ⟨haccepted, rfl⟩
  obtain rfl := Except.ok.inj (hreport.symm.trans haccepting)
  obtain rfl := Option.some.inj hnormalized
  obtain ⟨step, hstep, hid, hprotects, -⟩ := hsteps _ List.mem_cons_self (by decide)
  exact ⟨prepared, _, _, definition, hprepared, hreport, rfl, hdefinition, _, List.mem_cons_self,
    by decide, step, hstep, hid, hprotects⟩

/-- A step for which the plan asks for an approval, at a low risk, starts without any. -/
theorem planned_approval_is_dropped : ∃ prepared report normalized planStep,
    Sample.mapper.prepare (Sample.cautiousPlan "change") [] = .ok prepared ∧
      Sample.mapper.validator.validate (Sample.cautiousPlan "change") [] = .ok report ∧
      report.normalizedPlan = some normalized ∧
      planStep ∈ normalized.steps ∧ planStep.approvalRequired = true ∧
      ∃ v, (World.after Sample.deployment 0
          (.createRun prepared.payload "r" :: Sample.runOnce)).shared.view "r" = some v ∧
        v.approvals.rows = [] ∧ ∃ start ∈ v.events, start.StartsForward ∧
          start.stepId = some planStep.id := by
  have haccepted : Sample.mapper.validator.PlanAccepted (Sample.cautiousPlan "change") [] :=
    Sample.cautiousPlan_accepted rfl ⟨_, rfl⟩
  obtain ⟨prepared, hprepared, hpayload⟩ := Sample.exists_prepared haccepted (by decide +kernel)
  obtain ⟨hreport, -⟩ := PlanValidator.validate_valid_iff.mpr ⟨haccepted, rfl⟩
  obtain ⟨v, hv, hempty, start, hstart, hforward⟩ : ∃ v, (World.after Sample.deployment 0
      (.createRun (Sample.cautiousPlanNormalized "change").payload "r" ::
        Sample.runOnce)).shared.view "r" = some v ∧ v.approvals.rows.isEmpty = true ∧
      ∃ start ∈ v.events, (start.eventType = .toolAttemptStarted ∧ start.phase = some .forward) ∧
        start.stepId = some "cautious" := Sample.exists_view (by decide +kernel)
  exact ⟨prepared, _, _, _, hprepared, hreport, rfl, List.mem_cons_self, rfl, v,
    hpayload ▸ hv, List.isEmpty_iff.mp hempty, start, hstart, hforward⟩

end ChangePilot
