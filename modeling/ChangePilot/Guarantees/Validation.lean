import ChangePilot.Guarantees.Planning
import Mathlib.Logic.Relation

/-!
# Accepted plans are safe

A plan that the validator accepts names registered tools with arguments that they take,
has dependencies without cycles, and cites evidence that is there.  Of its steps only the
risk, the reasons for it and the approval are changed.  What comes out is accepted as it
is.
-/

namespace ChangePilot

/-! ## What an accepted plan promises -/

/-- A step of the plan depends on the other. -/
def ChangePlan.DependsOn (plan : ChangePlan) (a b : String) : Prop :=
  ∃ step ∈ plan.steps, step.id = a ∧ b ∈ step.dependsOn

namespace PlanValidator

variable (v : PlanValidator)

/-- What `normalizeStep` may add to the reasons for a risk. -/
def validatorReasons : List String :=
  ["runtime tool descriptor marks this operation high risk",
    "planning tool policy raises the minimum risk"]

/-- The last piece of evidence under the chunk of the reference is what it cites. -/
def Cites (evidence : List RetrievedEvidence) (reference : EvidenceRef)
    (item : RetrievedEvidence) : Prop :=
  ∃ earlier later, evidence = earlier ++ item :: later ∧ item.reference = reference ∧
    ∀ other ∈ later, other.reference.chunkId ≠ reference.chunkId

/-- A step of a normalized plan, beside the one that was proposed. -/
structure SafeStep (evidence : List RetrievedEvidence) (proposed step : PlanStep) : Prop where
  registered : ∃ descriptor, v.tools.tools step.tool.name step.tool.version = some descriptor ∧
    proposed.risk.order ≤ step.risk.order ∧ descriptor.risk.order ≤ step.risk.order
  arguments : ∃ coerced, v.tools.coerceArguments v.runtime step.tool.name step.tool.version
    (.ofFields step.arguments) = .ok coerced
  approval : step.risk = .high → step.approvalRequired = true ∧
    ∃ reason, step.approvalReason = some reason ∧ reason ≠ ""
  cited : ∀ reference ∈ step.evidenceRefs, ∃ item, Cites evidence reference item ∧
    ((v.policies.get step.tool.name step.tool.version).isSome → item.conflict = false)
  policy : ∀ policy, v.policies.get step.tool.name step.tool.version = some policy →
    policy.minimumRisk.order ≤ step.risk.order ∧
    (policy.compensationRequired = true → ∃ tool intent, step.compensationTool = some tool ∧
      step.compensationIntent = some intent ∧ intent ≠ "" ∧
      v.tools.contains tool.name tool.version = true) ∧
    (policy.sideEffecting = true → ∃ reference ∈ step.evidenceRefs, ∃ item,
      Cites evidence reference item ∧ policy.minimumTrust.order ≤ item.trustLevel.order)
  reasons : ∃ added, added ⊆ validatorReasons ∧
    step.riskReasons = (proposed.riskReasons ++ added).eraseDups
  asked : proposed.approvalRequired = true → step.approvalRequired = true
  explained : proposed.approvalReason.getD "" ≠ "" → step.approvalReason = proposed.approvalReason
  frame : step = { proposed with
    risk := step.risk, riskReasons := step.riskReasons
    approvalRequired := step.approvalRequired, approvalReason := step.approvalReason }

/-- A normalized plan, beside the one that was proposed. -/
structure SafePlan (evidence : List RetrievedEvidence) (proposed plan : ChangePlan) : Prop where
  steps : List.Forall₂ (v.SafeStep evidence) proposed.steps plan.steps
  closed : ∀ a b, plan.DependsOn a b → b ∈ plan.steps.map PlanStep.id
  acyclic : ∀ a, ¬ Relation.TransGen plan.DependsOn a a
  frame : ∃ hids, plan = proposed.withSteps plan.steps hids
  again : v.validate plan evidence = .ok { valid := true, normalizedPlan := some plan }

section

variable {v} {evidence : List RetrievedEvidence} {step : PlanStep} {plan : ChangePlan}

/-! ## Citations -/

theorem cites_of_citedEvidence {reference : EvidenceRef} {item : RetrievedEvidence}
    (h : citedEvidence evidence reference = some item) : Cites evidence reference item := by
  obtain ⟨hfound, hreference⟩ := Option.filter_eq_some_iff.mp h
  have hreference : item.reference = reference := of_decide_eq_true hreference
  obtain ⟨_, later, earlier, hevidence, hlater⟩ := List.find?_eq_some_iff_append.mp hfound
  refine ⟨earlier.reverse, later.reverse, ?_, hreference, fun other hother => ?_⟩
  · rw [← List.reverse_reverse evidence, hevidence, List.reverse_append, List.reverse_cons,
      List.append_assoc]
    rfl
  · have hne := hlater other (List.mem_reverse.mp hother)
    simpa using hne

/-! ## Reasons -/

theorem eraseDups_eraseDups {α : Type} [BEq α] [LawfulBEq α] (xs : List α) :
    xs.eraseDups.eraseDups = xs.eraseDups := by
  induction hn : xs.length using Nat.strong_induction_on generalizing xs with
  | _ n ih =>
      cases xs with
      | nil => rfl
      | cons x rest =>
          rw [List.eraseDups_cons, List.eraseDups_cons]
          have hkept : (rest.filter fun y => !y == x).eraseDups.filter (fun y => !y == x) =
              (rest.filter fun y => !y == x).eraseDups := by
            refine List.filter_eq_self.mpr fun y hy => ?_
            exact (List.mem_filter.mp (List.mem_eraseDups.mp hy)).2
          have hlength := List.length_filter_le (fun y => !y == x) rest
          rw [hkept, ih _ (by rw [← hn, List.length_cons]; omega) _ rfl]

/-- Reasons that are there are not added again. -/
theorem eraseDups_append_eraseDups {α : Type} [BEq α] [LawfulBEq α] {xs more : List α}
    (h : more ⊆ xs) : (xs.eraseDups ++ more).eraseDups = xs.eraseDups := by
  have hnone : more.removeAll xs.eraseDups = [] := by
    refine List.filter_eq_nil_iff.mpr fun x hx => ?_
    simpa using h hx
  rw [List.eraseDups_append, eraseDups_eraseDups, hnone, List.eraseDups_nil, List.append_nil]

theorem addedReasons_subset (step : PlanStep) (descriptor : ToolDescriptor)
    (policy : Option PlanningToolPolicy) :
    addedReasons step descriptor policy ⊆ validatorReasons := by
  unfold addedReasons validatorReasons
  split <;> split <;> simp

/-! ## Steps -/

section

variable {descriptor : ToolDescriptor}

/-- The policy of a registered step. -/
def policyOf (v : PlanValidator) (step : PlanStep) : Option PlanningToolPolicy :=
  v.policies.get step.tool.name step.tool.version

/-- The risk that a step of the tool ends with. -/
def finalRisk (v : PlanValidator) (descriptor : ToolDescriptor) (step : PlanStep) : ToolRisk :=
  maxRisk step.risk descriptor.risk
    (match v.policyOf step with | some policy => policy.minimumRisk | none => descriptor.risk)

theorem order_le_finalRisk (v : PlanValidator) (descriptor : ToolDescriptor) (step : PlanStep) :
    step.risk.order ≤ (v.finalRisk descriptor step).order ∧
      descriptor.risk.order ≤ (v.finalRisk descriptor step).order ∧
      ∀ policy, v.policyOf step = some policy →
        policy.minimumRisk.order ≤ (v.finalRisk descriptor step).order := by
  rw [finalRisk, order_maxRisk]
  refine ⟨le_max_of_le_left (le_max_left _ _), le_max_of_le_left (le_max_right _ _),
    fun policy hpolicy => ?_⟩
  rw [hpolicy]
  exact le_max_right _ _

theorem normalizeStep_eq (hdescriptor : v.tools.tools step.tool.name step.tool.version =
    some descriptor) : v.normalizeStep step = { step with
      risk := v.finalRisk descriptor step
      approvalRequired := step.approvalRequired || v.finalRisk descriptor step = .high
      approvalReason :=
        if (step.approvalRequired || v.finalRisk descriptor step = .high) &&
            step.approvalReason.getD "" = "" then
          some "deterministic risk policy requires approval"
        else step.approvalReason
      riskReasons :=
        (step.riskReasons ++ addedReasons step descriptor (v.policyOf step)).eraseDups } := by
  unfold normalizeStep
  rw [hdescriptor]
  rfl

/-- A step that has been normalized is left as it is. -/
theorem normalizeStep_normalizeStep (hdescriptor :
    v.tools.tools step.tool.name step.tool.version = some descriptor) :
    v.normalizeStep (v.normalizeStep step) = v.normalizeStep step := by
  have htool : (v.normalizeStep step).tool = step.tool := by rw [normalizeStep_eq hdescriptor]
  have hagain : v.tools.tools (v.normalizeStep step).tool.name
      (v.normalizeStep step).tool.version = some descriptor := by
    rw [htool]
    exact hdescriptor
  have hpolicy : v.policyOf (v.normalizeStep step) = v.policyOf step := by
    rw [policyOf, policyOf, htool]
  have hnext : (v.normalizeStep step).risk = v.finalRisk descriptor step := by
    rw [normalizeStep_eq hdescriptor]
  have hrisk : v.finalRisk descriptor (v.normalizeStep step) = v.finalRisk descriptor step := by
    apply ToolRisk.order_injective
    rw [finalRisk, hpolicy, hnext, order_maxRisk, finalRisk, order_maxRisk]
    omega
  have hreasons : addedReasons (v.normalizeStep step) descriptor (v.policyOf step) ⊆
      addedReasons step descriptor (v.policyOf step) := by
    unfold addedReasons
    refine List.append_subset.mpr ⟨List.subset_append_left _ _, ?_⟩
    -- the minimum of the policy has been reached
    have hreached : (v.policyOf step).any (fun policy =>
        (v.normalizeStep step).risk.order < policy.minimumRisk.order) = false := by
      cases hsome : v.policyOf step with
      | none => rfl
      | some policy =>
          have hle := (order_le_finalRisk v descriptor step).2.2 policy hsome
          rw [hnext]
          simpa using hle
    rw [hreached]
    exact List.nil_subset _
  have hlisted : ((v.normalizeStep step).riskReasons ++
      addedReasons (v.normalizeStep step) descriptor (v.policyOf step)).eraseDups =
        (v.normalizeStep step).riskReasons := by
    have hreason : (v.normalizeStep step).riskReasons =
        (step.riskReasons ++ addedReasons step descriptor (v.policyOf step)).eraseDups := by
      rw [normalizeStep_eq hdescriptor]
    rw [hreason]
    exact eraseDups_append_eraseDups fun x hx => List.mem_append_right _ (hreasons hx)
  have hrequired : ((v.normalizeStep step).approvalRequired || v.finalRisk descriptor step = .high) =
      (v.normalizeStep step).approvalRequired := by
    rw [normalizeStep_eq hdescriptor]
    simp only [Bool.or_assoc, Bool.or_self]
  have hexplained : ((v.normalizeStep step).approvalRequired &&
      (v.normalizeStep step).approvalReason.getD "" = "") = false := by
    rw [normalizeStep_eq hdescriptor]
    dsimp only
    cases hempty : ((step.approvalRequired || v.finalRisk descriptor step = .high) &&
      step.approvalReason.getD "" = "" : Bool) with
    | false => rwa [if_neg (by simp)]
    | true => rw [if_pos rfl, Option.getD_some]; simp
  rw [normalizeStep_eq hagain, hrisk, hpolicy, hlisted, hrequired, hexplained, ← hnext]
  rfl

theorem StepAccepted.exists_descriptor (h : v.StepAccepted evidence step) :
    ∃ descriptor, v.tools.tools step.tool.name step.tool.version = some descriptor :=
  Option.isSome_iff_exists.mp h.registered

/-- What is checked of a step is left as it is. -/
theorem StepAccepted.normalizeStep (h : v.StepAccepted evidence step) :
    v.StepAccepted evidence (v.normalizeStep step) := by
  obtain ⟨descriptor, hdescriptor⟩ := h.exists_descriptor
  rw [normalizeStep_eq hdescriptor]
  exact ⟨h.registered, h.arguments, h.cited, h.trusted, h.compensated⟩

theorem StepAccepted.safeStep (h : v.StepAccepted evidence step) :
    v.SafeStep evidence step (v.normalizeStep step) := by
  obtain ⟨descriptor, hdescriptor⟩ := h.exists_descriptor
  obtain ⟨hproposed, hrisk, hminimum⟩ := order_le_finalRisk v descriptor step
  rw [normalizeStep_eq hdescriptor]
  exact {
    registered := ⟨descriptor, hdescriptor, hproposed, hrisk⟩
    arguments := h.arguments
    approval := by
      -- a high risk needs an approval, with some reason
      intro (hhigh : v.finalRisk descriptor step = .high)
      dsimp only
      rw [decide_eq_true hhigh, Bool.or_true, Bool.true_and]
      refine ⟨rfl, ?_⟩
      cases hreason : step.approvalReason with
      | none => exact ⟨_, rfl, by decide⟩
      | some reason =>
          by_cases hempty : reason = ""
          · exact ⟨_, if_pos (decide_eq_true hempty), by decide⟩
          · exact ⟨reason, if_neg (by simpa using hempty), hempty⟩
    cited := by
      intro reference hreference
      obtain ⟨item, hitem, hconflict⟩ := h.cited reference hreference
      exact ⟨item, cites_of_citedEvidence hitem, hconflict⟩
    policy := by
      intro policy hpolicy
      refine ⟨hminimum policy hpolicy, fun hrequired => ?_, fun heffects => ?_⟩
      · obtain ⟨tool, htool, hintent, hcontains⟩ := h.compensated policy hpolicy hrequired
        cases hsome : step.compensationIntent with
        | none =>
            rw [hsome] at hintent
            exact absurd rfl hintent
        | some intent =>
            rw [hsome] at hintent
            exact ⟨tool, intent, htool, rfl, hintent, hcontains⟩
      · obtain ⟨reference, hreference, hany⟩ := List.any_eq_true.mp (h.trusted policy hpolicy heffects)
        obtain ⟨item, hitem, htrust⟩ := (Option.any_eq_true _ _).mp hany
        exact ⟨reference, hreference, item, cites_of_citedEvidence hitem, of_decide_eq_true htrust⟩
    reasons := ⟨_, addedReasons_subset step descriptor _, rfl⟩
    asked := by
      intro hasked
      dsimp only
      rw [hasked, Bool.true_or]
    explained := by
      intro hreason
      dsimp only
      rw [decide_eq_false hreason, Bool.and_false]
      rfl
    frame := rfl }

end

/-! ## Graphs -/

theorem not_transGen_of_rank {α : Type} {r : α → α → Prop} (rank : α → ℕ)
    (hrank : ∀ a b, r a b → rank b < rank a) (a : α) : ¬ Relation.TransGen r a a := by
  have hlt : ∀ {b}, Relation.TransGen r a b → rank b < rank a := by
    intro b h
    induction h with
    | single hab => exact hrank _ _ hab
    | tail _ hbc ih => exact (hrank _ _ hbc).trans ih
  exact fun h => (hlt h).false

/-- The dependencies of an accepted plan have no cycle. -/
theorem PlanAccepted.acyclic_dependsOn (h : v.PlanAccepted plan evidence) (a : String) :
    ¬ Relation.TransGen plan.DependsOn a a := by
  have hkeys : (Kahn.nodes (planGraph plan)).Nodup := by
    rw [Kahn.nodes, planGraph, List.map_map]
    exact plan.ids_nodup
  obtain ⟨rank, hrank⟩ := Kahn.exists_rank_of_findCycle_eq_none hkeys h.acyclic
  refine not_transGen_of_rank rank (fun a b hab => ?_) a
  obtain ⟨step, hstep, rfl, hb⟩ := hab
  have hnode : (step.id, step.dependsOn) ∈ planGraph plan := List.mem_map.mpr ⟨step, hstep, rfl⟩
  refine hrank _ (List.mem_map.mpr ⟨_, hnode, rfl⟩) b ?_
  rw [Kahn.depsOf_of_mem hkeys hnode]
  exact hb

/-! ## Plans -/

theorem withSteps_congr (plan : ChangePlan) {steps steps' : List PlanStep} (h : steps = steps')
    (hids : steps.map PlanStep.id = plan.steps.map PlanStep.id)
    (hids' : steps'.map PlanStep.id = plan.steps.map PlanStep.id) :
    plan.withSteps steps hids = plan.withSteps steps' hids' := by
  subst h
  rfl

/-- What has been accepted is accepted again once it is normalized. -/
theorem PlanAccepted.normalized (h : v.PlanAccepted plan evidence) :
    v.PlanAccepted (plan.withSteps (plan.steps.map v.normalizeStep)
      (v.map_id_normalizeStep plan.steps)) evidence := by
  have hdepends : ∀ step ∈ plan.steps, (v.normalizeStep step).dependsOn = step.dependsOn := by
    intro step hstep
    obtain ⟨descriptor, hdescriptor⟩ := (h.steps step hstep).exists_descriptor
    rw [normalizeStep_eq hdescriptor]
  have hgraph : planGraph (plan.withSteps (plan.steps.map v.normalizeStep)
      (v.map_id_normalizeStep plan.steps)) = planGraph plan := by
    show (plan.steps.map v.normalizeStep).map _ = _
    rw [List.map_map]
    refine List.map_congr_left fun step hstep => ?_
    rw [Function.comp_apply, normalizeStep_id, hdepends step hstep]
  refine ⟨?_, hgraph ▸ h.acyclic, ?_, h.policyVersion⟩
  · show ∀ step ∈ plan.steps.map v.normalizeStep, ∀ dependency ∈ step.dependsOn,
      dependency ∈ (plan.steps.map v.normalizeStep).map PlanStep.id
    rw [map_id_normalizeStep]
    refine List.forall_mem_map.mpr fun step hstep => ?_
    rw [hdepends step hstep]
    exact h.known step hstep
  · exact List.forall_mem_map.mpr fun step hstep => (h.steps step hstep).normalizeStep

theorem PlanAccepted.normalized_normalized (h : v.PlanAccepted plan evidence) :
    (plan.steps.map v.normalizeStep).map v.normalizeStep = plan.steps.map v.normalizeStep := by
  rw [List.map_map]
  refine List.map_congr_left fun step hstep => ?_
  obtain ⟨descriptor, hdescriptor⟩ := (h.steps step hstep).exists_descriptor
  exact normalizeStep_normalizeStep hdescriptor

theorem PlanAccepted.safePlan (h : v.PlanAccepted plan evidence) :
    v.SafePlan evidence plan (plan.withSteps (plan.steps.map v.normalizeStep)
      (v.map_id_normalizeStep plan.steps)) where
  steps := List.forall₂_map_right_iff.mpr
    (List.forall₂_same.mpr fun step hstep => (h.steps step hstep).safeStep)
  closed a b := fun ⟨step, hstep, _, hb⟩ => h.normalized.known step hstep b hb
  acyclic := h.normalized.acyclic_dependsOn
  frame := ⟨_, rfl⟩
  again := by
    rw [(validate_valid_iff.mpr ⟨h.normalized, rfl⟩).1, acceptingReport]
    congr 2
    refine congrArg some (withSteps_congr plan h.normalized_normalized ?_ _)
    rw [map_id_normalizeStep, map_id_normalizeStep]

end

end PlanValidator

/-- A plan that is valid is safe once it is normalized: its tools are registered and take
the arguments, its dependencies are closed and have no cycle, its risks are as high as all
sides ask for and approval is asked for the high ones, what its policies ask for is there,
and its citations are of the evidence.  Only the risks, their reasons and the approvals are
changed, and what comes out is valid and stays as it is. -/
theorem accepted_plan_is_safe (v : PlanValidator) (plan : ChangePlan)
    (evidence : List RetrievedEvidence) (report : ValidationReport)
    (hreport : v.validate plan evidence = .ok report) (hvalid : report.valid = true) :
    ∃ normalized, report.normalizedPlan = some normalized ∧ v.SafePlan evidence plan normalized := by
  obtain ⟨haccepted, rfl⟩ := PlanValidator.validate_valid_iff.mp ⟨hreport, hvalid⟩
  exact ⟨_, rfl, haccepted.safePlan⟩

namespace Sample

/-- A policy for dangerous changes. -/
def dangerPolicy : PlanningToolPolicy where
  tool := ⟨"danger", "1"⟩
  minimumRisk := .medium
  sideEffecting := true
  compensationRequired := true
  minimumTrust := .authoritative

def planValidator : PlanValidator where
  runtime := canonicalRuntime
  tools := registry
  policies := { version := "policy-1", policies := [dangerPolicy], tools_nodup := by decide }

def dangerEvidence : RetrievedEvidence where
  reference := ⟨"runbook", "1", "chunk", "Danger", "digest"⟩
  text := "How to do it."
  trustLevel := .authoritative
  hybridScore := 1

/-- A dangerous step, proposed as a harmless one. -/
def dangerStep : PlanStep where
  id := "s"
  tool := ⟨"danger", "1"⟩
  compensationTool := some ⟨"undo", "1"⟩
  compensationIntent := some "undo it"
  evidenceRefs := [dangerEvidence.reference]

def dangerPlan : ChangePlan where
  planId := "plan"
  version := 1
  goal := "upgrade"
  steps := [dangerStep]
  knowledgeSnapshotDigest := ""
  promptVersion := ""
  toolPolicyVersion := "policy-1"
  version_pos := Nat.le_refl 1
  ids_nodup := List.nodup_singleton _

theorem dangerStep_accepted : planValidator.StepAccepted [dangerEvidence] dangerStep where
  registered := by decide
  arguments := ⟨_, rfl⟩
  cited := List.forall_mem_singleton.mpr ⟨dangerEvidence, by decide, fun _ => rfl⟩
  trusted policy hpolicy _ := by
    obtain rfl : dangerPolicy = policy := Option.some.inj hpolicy
    decide
  compensated policy _ _ := ⟨⟨"undo", "1"⟩, rfl, by decide, by decide⟩

theorem dangerPlan_accepted : planValidator.PlanAccepted dangerPlan [dangerEvidence] where
  known := List.forall_mem_singleton.mpr (List.forall_mem_nil _)
  acyclic := by decide
  steps := List.forall_mem_singleton.mpr dangerStep_accepted
  policyVersion := rfl

end Sample

theorem accepted_plan_is_safe_danger : ∃ report normalized,
    Sample.planValidator.validate Sample.dangerPlan [Sample.dangerEvidence] = .ok report ∧
    report.normalizedPlan = some normalized ∧
    Sample.planValidator.SafePlan [Sample.dangerEvidence] Sample.dangerPlan normalized := by
  obtain ⟨hreport, hvalid⟩ := PlanValidator.validate_valid_iff.mpr ⟨Sample.dangerPlan_accepted, rfl⟩
  obtain ⟨normalized, hnormalized, hsafe⟩ := accepted_plan_is_safe Sample.planValidator
    Sample.dangerPlan [Sample.dangerEvidence] _ hreport hvalid
  exact ⟨_, normalized, hreport, hnormalized, hsafe⟩

/-- A step comes out with reasons for its risk that it did not come with. -/
theorem accepted_plan_gains_reasons : ∃ (v : PlanValidator) (plan normalized : ChangePlan)
    (evidence : List RetrievedEvidence) (report : ValidationReport),
    v.validate plan evidence = .ok report ∧ report.valid = true ∧
    report.normalizedPlan = some normalized ∧
    normalized.steps.map PlanStep.riskReasons ≠ plan.steps.map PlanStep.riskReasons := by
  obtain ⟨hreport, hvalid⟩ := PlanValidator.validate_valid_iff.mpr ⟨Sample.dangerPlan_accepted, rfl⟩
  exact ⟨_, _, _, _, _, hreport, hvalid, rfl, by decide⟩

end ChangePilot
