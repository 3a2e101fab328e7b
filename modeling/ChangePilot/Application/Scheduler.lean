import ChangePilot.Application.Records
import ChangePilot.Domain.Definitions
import ChangePilot.Library.Linearisation
import Mathlib.Data.Prod.Lex

/-!
# The scheduler

`readySteps` lists the steps that may be started, `compensationOrder` the steps
whose effects are to be undone, in the order in which to undo them.
-/

namespace ChangePilot

/-- `{step_run.step_id: step_run for step_run in step_runs}[step_id]`: of several
rows the last one counts. -/
def stepRunById (stepRuns : List StepRun) (stepId : String) : Option StepRun :=
  stepRuns.reverse.find? fun stepRun => stepRun.stepId = stepId

def stepStateIs (stepRuns : List StepRun) (stepId : String) (states : List StepState) : Prop :=
  ∃ stepRun ∈ stepRunById stepRuns stepId, stepRun.state ∈ states

instance (stepRuns : List StepRun) (stepId : String) (states : List StepState) :
    Decidable (stepStateIs stepRuns stepId states) :=
  match h : stepRunById stepRuns stepId with
  | none => isFalse (by simp [stepStateIs, h])
  | some stepRun => decidable_of_iff (stepRun.state ∈ states) (by simp [stepStateIs, h])

/-- `set(step_run_ids) == {step.id for step in definition.steps}`. -/
def idsMatch (definition : WorkflowDefinition) (stepRuns : List StepRun) : Prop :=
  (∀ stepRun ∈ stepRuns, stepRun.stepId ∈ definition.steps.map StepDefinition.id) ∧
    ∀ step ∈ definition.steps, step.id ∈ stepRuns.map StepRun.stepId

instance (definition : WorkflowDefinition) (stepRuns : List StepRun) :
    Decidable (idsMatch definition stepRuns) :=
  inferInstanceAs (Decidable (_ ∧ _))

/-! ## Ready steps -/

/-- `depth`, with the number of steps as a bound on the recursion, which is the
length of no path in an acyclic definition. -/
def topologicalDepth (definition : WorkflowDefinition) : ℕ → String → ℕ
  | 0, _ => 0
  | fuel + 1, stepId =>
      match definition.steps.find? fun step => step.id = stepId with
      | none => 0
      | some step =>
          match step.dependsOn.map (topologicalDepth definition fuel) with
          | [] => 0
          | depth :: depths => 1 + depths.foldl max depth

/-- The key the ready steps are sorted by. -/
def readyKey (definition : WorkflowDefinition) (step : StepDefinition) : ℕ ×ₗ String :=
  toLex (topologicalDepth definition definition.steps.length step.id, step.id)

def isReady (stepRuns : List StepRun) (step : StepDefinition) : Prop :=
  stepStateIs stepRuns step.id [.pending, .ready] ∧
    ∀ dependency ∈ step.dependsOn, stepStateIs stepRuns dependency [.succeeded]

instance (stepRuns : List StepRun) (step : StepDefinition) : Decidable (isReady stepRuns step) :=
  inferInstanceAs (Decidable (_ ∧ _))

def readySteps (definition : WorkflowDefinition) (stepRuns : List StepRun) :
    Except Error (List StepDefinition) :=
  if ¬ (stepRuns.map StepRun.stepId).Nodup then .error (.valueError "duplicate step run IDs")
  else if ¬ idsMatch definition stepRuns then
    .error (.valueError "step run IDs must exactly match definition")
  else if (stepRuns.map StepRun.runId).dedup.length ≠ 1 then
    .error (.valueError "step runs must belong to exactly one run")
  else .ok <| (definition.steps.filter fun step => isReady stepRuns step).insertionSort
    fun a b => readyKey definition a ≤ readyKey definition b

theorem mem_readySteps {definition : WorkflowDefinition} {stepRuns : List StepRun}
    {ready : List StepDefinition} (h : readySteps definition stepRuns = .ok ready)
    {step : StepDefinition} :
    step ∈ ready ↔ step ∈ definition.steps ∧ isReady stepRuns step := by
  unfold readySteps at h
  split at h <;> try simp at h
  split at h <;> try simp at h
  split at h <;> try simp at h
  rw [← h, List.mem_insertionSort]
  simp

theorem nodup_readySteps {definition : WorkflowDefinition} {stepRuns : List StepRun}
    {ready : List StepDefinition} (h : readySteps definition stepRuns = .ok ready)
    (hdefinition : (definition.steps.map StepDefinition.id).Nodup) :
    (ready.map StepDefinition.id).Nodup := by
  unfold readySteps at h
  split at h <;> try simp at h
  split at h <;> try simp at h
  split at h <;> try simp at h
  rw [← h]
  exact ((List.perm_insertionSort _ _).map _).nodup_iff.mpr
    (hdefinition.sublist (List.filter_sublist.map _))

/-! ## Compensation order -/

/-- An attempt that counts as a forward effect. -/
def StepAttempt.ForwardEffect (attempt : StepAttempt) : Prop :=
  attempt.phase = .forward ∧ attempt.Completed ∧ attempt.effectApplied = true

instance (attempt : StepAttempt) : Decidable attempt.ForwardEffect :=
  inferInstanceAs (Decidable (_ ∧ _))

/-- The initial `remaining` of `compensation_order`. -/
def compensable (definition : WorkflowDefinition) (stepRuns : List StepRun)
    (attempts : List StepAttempt) : List StepDefinition :=
  definition.steps.filter fun step =>
    step.compensationTool.isSome ∧ stepStateIs stepRuns step.id [.succeeded] ∧
      ∃ attempt ∈ attempts, attempt.stepId = step.id ∧ attempt.ForwardEffect

/-- `-(completion_sequence or 0)`, then the id. -/
def compensationKey (stepRuns : List StepRun) (step : StepDefinition) : ℤ ×ₗ String :=
  toLex (-(((stepRunById stepRuns step.id).bind StepRun.completionSequence).getD 0 : ℕ), step.id)

/-- A dependent that is still to be compensated blocks what it depends on. -/
def DependsDirectly (dependent step : StepDefinition) : Prop := step.id ∈ dependent.dependsOn

instance : DecidableRel DependsDirectly := fun dependent step =>
  inferInstanceAs (Decidable (step.id ∈ dependent.dependsOn))

/-- The steps to compensate, in order; `min` raises if there is no leaf. -/
def compensationOrder (definition : WorkflowDefinition) (stepRuns : List StepRun)
    (attempts : List StepAttempt) : Except Error (List StepDefinition) :=
  if ¬ idsMatch definition stepRuns then
    .error (.valueError "step run IDs must exactly match definition")
  else
    match Linearisation.linearise DependsDirectly (compensationKey stepRuns)
      (compensable definition stepRuns attempts).length
      (compensable definition stepRuns attempts) with
    | none => .error (.valueError "min() iterable argument is empty")
    | some ordered => .ok ordered

/-- `_pending_compensations`. -/
def pendingCompensations (definition : WorkflowDefinition) (stepRuns : List StepRun)
    (attempts : List StepAttempt) : Except Error (List StepDefinition) := do
  let ordered ← compensationOrder definition stepRuns attempts
  return ordered.filter fun step =>
    ¬ ∃ attempt ∈ attempts,
      attempt.stepId = step.id ∧ attempt.phase = .compensation ∧ attempt.Completed

/-! ## The order of compensation -/

theorem WorkflowDefinition.ids_nodup (definition : WorkflowDefinition) :
    (definition.steps.map StepDefinition.id).Nodup :=
  List.pairwise_map.mpr (definition.steps_sorted.imp fun h => h.ne)

theorem WorkflowDefinition.eq_of_id_eq (definition : WorkflowDefinition) {a b : StepDefinition}
    (ha : a ∈ definition.steps) (hb : b ∈ definition.steps) (hid : a.id = b.id) : a = b :=
  List.inj_on_of_nodup_map definition.ids_nodup ha hb hid

theorem compensationKey_injective {definition : WorkflowDefinition} {stepRuns : List StepRun}
    {attempts : List StepAttempt} :
    ((compensable definition stepRuns attempts).map (compensationKey stepRuns)).Nodup := by
  have hids : ((compensable definition stepRuns attempts).map StepDefinition.id).Nodup :=
    definition.ids_nodup.sublist (List.filter_sublist.map _)
  rw [List.Nodup, List.pairwise_map] at hids ⊢
  exact hids.imp fun hne heq => hne (congrArg (fun key => (ofLex key).2) heq)

theorem compensationOrder_spec {definition : WorkflowDefinition} {stepRuns : List StepRun}
    {attempts : List StepAttempt} {ordered : List StepDefinition}
    (h : compensationOrder definition stepRuns attempts = .ok ordered) :
    ordered.Perm (compensable definition stepRuns attempts) ∧
      Linearisation.Greedy DependsDirectly (compensationKey stepRuns) ordered := by
  unfold compensationOrder at h
  split at h
  case isTrue => simp at h
  case isFalse =>
    split at h
    case h_1 => simp at h
    case h_2 result hresult =>
      obtain rfl : result = ordered := by simpa using h
      exact Linearisation.linearise_spec compensationKey_injective hresult

theorem mem_compensationOrder {definition : WorkflowDefinition} {stepRuns : List StepRun}
    {attempts : List StepAttempt} {ordered : List StepDefinition}
    (h : compensationOrder definition stepRuns attempts = .ok ordered) {step : StepDefinition} :
    step ∈ ordered ↔ step ∈ definition.steps ∧ step.compensationTool.isSome ∧
      stepStateIs stepRuns step.id [.succeeded] ∧
        ∃ attempt ∈ attempts, attempt.stepId = step.id ∧ attempt.ForwardEffect := by
  rw [(compensationOrder_spec h).1.mem_iff]
  simp [compensable]

theorem mem_pendingCompensations {definition : WorkflowDefinition} {stepRuns : List StepRun}
    {attempts : List StepAttempt} {pending : List StepDefinition}
    (h : pendingCompensations definition stepRuns attempts = .ok pending)
    {step : StepDefinition} :
    step ∈ pending ↔ (step ∈ definition.steps ∧ step.compensationTool.isSome ∧
      stepStateIs stepRuns step.id [.succeeded] ∧
        ∃ attempt ∈ attempts, attempt.stepId = step.id ∧ attempt.ForwardEffect) ∧
      ∀ attempt ∈ attempts, attempt.stepId = step.id → attempt.phase = .compensation →
        ¬ attempt.Completed := by
  cases hordered : compensationOrder definition stepRuns attempts with
  | error e => simp [pendingCompensations, hordered, bind, Except.bind] at h
  | ok ordered =>
      obtain rfl : _ = pending := by
        simpa [pendingCompensations, hordered, bind, Except.bind, pure, Except.pure] using h
      rw [List.mem_filter, mem_compensationOrder hordered]
      simp

/-- On an accepted definition with its own step runs the order always exists. -/
theorem compensationOrder_isOk {definition : WorkflowDefinition} {stepRuns : List StepRun}
    (attempts : List StepAttempt) (hids : idsMatch definition stepRuns) :
    ∃ ordered, compensationOrder definition stepRuns attempts = .ok ordered := by
  obtain ⟨rank, hrank⟩ := definition.acyclic
  have hsome : (Linearisation.linearise DependsDirectly (compensationKey stepRuns)
      (compensable definition stepRuns attempts).length
      (compensable definition stepRuns attempts)).isSome :=
    Linearisation.linearise_isSome (fun step => rank step.id)
      (fun _ y hy hblocks => hrank y hy _ hblocks) (List.filter_subset_self _)
      compensationKey_injective le_rfl
  obtain ⟨ordered, hordered⟩ := Option.isSome_iff_exists.mp hsome
  exact ⟨ordered, by simp [compensationOrder, hids, hordered]⟩

end ChangePilot
