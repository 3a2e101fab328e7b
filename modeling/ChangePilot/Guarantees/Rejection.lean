import ChangePilot.System.Sample

/-!
# Rejections

A rejected request sends the run to where its effects are undone, if there are any.
The effects are looked for among the attempts with the status that the coordinator
writes, and those that recovery has found carry another one.  So a rejection does
justice to the effects of a run as long as recovered effects come with effects that
are counted.
-/

namespace ChangePilot

/-! ## The loop over the steps -/

/-- A step with an effect that `_rejection_target` counts. -/
def MemoryStore.Counts (store : MemoryStore) (runId : String) (step : StepDefinition) : Prop :=
  (∃ row, store.getStep runId step.id = some row ∧ row.state = .succeeded) ∧
    ∃ attempt ∈ store.listStepAttempts runId step.id,
      attempt.status = .success ∧ attempt.effectApplied = true

/-- A step that is not counted is passed over. -/
theorem rejectionTargetFrom_cons {store : MemoryStore} {runId : String} {hasEffect : Bool}
    {step : StepDefinition} {rest : List StepDefinition} :
    (¬ store.Counts runId step → rejectionTargetFrom store runId hasEffect (step :: rest) =
      rejectionTargetFrom store runId hasEffect rest) ∧
    (store.Counts runId step → rejectionTargetFrom store runId hasEffect (step :: rest) =
      if step.compensationTool.isNone then .manualIntervention
      else rejectionTargetFrom store runId true rest) := by
  constructor
  · intro hnot
    rw [rejectionTargetFrom]
    split
    · rfl
    case h_2 row hrow =>
      split
      · rfl
      case isFalse hstate =>
        rw [if_pos]
        intro hany
        obtain ⟨attempt, hattempt, heffect⟩ := List.any_eq_true.mp hany
        exact hnot ⟨⟨row, hrow, not_not.mp hstate⟩, attempt, hattempt, of_decide_eq_true heffect⟩
  · rintro ⟨⟨row, hrow, hstate⟩, attempt, hattempt, heffect⟩
    rw [rejectionTargetFrom, hrow]
    dsimp only
    rw [if_neg (not_not.mpr hstate), if_neg]
    exact not_not.mpr (List.any_eq_true.mpr ⟨attempt, hattempt, decide_eq_true heffect⟩)

open Classical in
theorem rejectionTargetFrom_eq {store : MemoryStore} {runId : String}
    (steps : List StepDefinition) : ∀ hasEffect : Bool,
    rejectionTargetFrom store runId hasEffect steps =
      if ∃ step ∈ steps, store.Counts runId step ∧ step.compensationTool = none then
        .manualIntervention
      else if hasEffect ∨ ∃ step ∈ steps, store.Counts runId step then .compensating
      else .cancelled := by
  induction steps with
  | nil => intro hasEffect; cases hasEffect <;> simp [rejectionTargetFrom]
  | cons step rest ih =>
      intro hasEffect
      by_cases hcounts : store.Counts runId step
      · rw [rejectionTargetFrom_cons.2 hcounts, ih true]
        cases htool : step.compensationTool <;> simp [hcounts, htool]
      · rw [rejectionTargetFrom_cons.1 hcounts, ih hasEffect]
        simp [hcounts]

/-! ## The effects of a run -/

namespace RunRecord

variable (v : RunRecord)

/-- The step has a forward effect that has not been compensated. -/
def LeavesEffect (step : StepDefinition) : Prop :=
  step ∈ v.definition.steps ∧ (∃ a ∈ v.attempts.rows, a.stepId = step.id ∧ a.ForwardEffect) ∧
    ∀ a ∈ v.attempts.rows, a.stepId = step.id → a.phase = .compensation → ¬ a.Completed

/-- ... and the coordinator itself has recorded one. -/
def CountsEffect (step : StepDefinition) : Prop :=
  v.LeavesEffect step ∧
    ∃ a ∈ v.attempts.rows, a.stepId = step.id ∧ a.ForwardEffect ∧ a.status = .success

/-- The state does justice to the effects that are left. -/
structure RoutesByEffects (target : RunState) : Prop where
  cancelled : target = .cancelled → ∀ step, ¬ v.LeavesEffect step
  compensating : target = .compensating → (∃ step, v.LeavesEffect step) ∧
    ∀ step, v.LeavesEffect step → step.compensationTool ≠ none
  manual : (∃ step, v.LeavesEffect step ∧ step.compensationTool = none) →
    target = .manualIntervention

/-- Where there are effects, some are counted, and where some cannot be undone, some of
these are. -/
structure EffectsCounted : Prop where
  left : (∃ step, v.LeavesEffect step) → ∃ step, v.CountsEffect step
  lasting : (∃ step, v.LeavesEffect step ∧ step.compensationTool = none) →
    ∃ step, v.CountsEffect step ∧ step.compensationTool = none

end RunRecord

section

variable {store : MemoryStore} {runId : String} {v : RunView}

/-- While a run waits for an approval, all its attempts go forward, and a step with an
effect has succeeded. -/
theorem RunView.Sound.counts_iff (hsound : v.Sound) (hstate : v.run.state = .waitingApproval)
    (hrecord : store.record runId = some v.toRunRecord) {step : StepDefinition} :
    v.CountsEffect step ↔ step ∈ v.definition.steps ∧ store.Counts runId step := by
  have hforward : ∀ a ∈ v.attempts.rows, a.phase = .forward := by
    intro a ha
    cases hphase : a.phase with
    | forward => rfl
    | probe => exact absurd hphase (hsound.phases a ha)
    | compensation =>
        have hundoing := (hsound.undoing ⟨a, ha, hphase⟩).state
        simp [hstate] at hundoing
  unfold RunRecord.CountsEffect RunRecord.LeavesEffect MemoryStore.Counts
  rw [MemoryStore.getStep_of_record hrecord, MemoryStore.listStepAttempts_of_record hrecord]
  constructor
  · rintro ⟨⟨hstep, -, -⟩, a, ha, hstepId, heffect, hstatus⟩
    have hsucceeded := hsound.effects a ha heffect.1 heffect.2.1
    rw [hstepId] at hsucceeded
    exact ⟨hstep, RunRecord.stateOf_eq_some_iff.mp hsucceeded, a,
      RunRecord.mem_stepAttempts.mpr ⟨ha, hstepId⟩, hstatus, heffect.2.2⟩
  · rintro ⟨hstep, -, a, hmem, hstatus, happlied⟩
    obtain ⟨ha, hstepId⟩ := RunRecord.mem_stepAttempts.mp hmem
    have heffect : a.ForwardEffect :=
      ⟨hforward a ha, by simp [StepAttempt.Completed, hstatus], happlied⟩
    refine ⟨⟨hstep, ⟨a, ha, hstepId, heffect⟩, fun other hother _ hphase => ?_⟩, a, ha, hstepId,
      heffect, hstatus⟩
    exact absurd ((hforward other hother).symm.trans hphase) (by decide)

/-- The state that the loop comes to does justice to the effects exactly if they are
counted. -/
theorem RunView.Sound.routes_iff (hsound : v.Sound) (hstate : v.run.state = .waitingApproval)
    (hrecord : store.record runId = some v.toRunRecord) :
    v.RoutesByEffects (rejectionTargetFrom store runId false v.definition.steps) ↔
      v.EffectsCounted := by
  -- what the store counts are the effects that are counted
  have hlasting : (∃ step ∈ v.definition.steps,
      store.Counts runId step ∧ step.compensationTool = none) ↔
        ∃ step, v.CountsEffect step ∧ step.compensationTool = none :=
    exists_congr fun step => by rw [hsound.counts_iff hstate hrecord, and_assoc]
  have hany : (∃ step ∈ v.definition.steps, store.Counts runId step) ↔
      ∃ step, v.CountsEffect step :=
    exists_congr fun step => (hsound.counts_iff hstate hrecord).symm
  -- the target, by the effects that the loop over the steps finds
  rw [rejectionTargetFrom_eq]
  split
  case isTrue hsome =>
    obtain ⟨step, hcounted, htool⟩ := hlasting.mp hsome
    exact ⟨fun _ => ⟨fun _ => ⟨step, hcounted⟩, fun _ => ⟨step, hcounted, htool⟩⟩,
      fun _ => ⟨nofun, nofun, fun _ => rfl⟩⟩
  case isFalse hnone =>
    rw [hlasting] at hnone
    split
    case isTrue hsome =>
      obtain ⟨step, hcounted⟩ := hany.mp (hsome.resolve_left nofun)
      refine ⟨fun h => ⟨fun _ => ⟨step, hcounted⟩, fun ⟨other, hother, htool⟩ => ?_⟩,
        fun h => ⟨nofun, fun _ => ⟨⟨step, hcounted.1⟩, fun other hother htool => ?_⟩,
          fun hleft => absurd (h.lasting hleft) hnone⟩⟩
      · exact absurd htool ((h.compensating rfl).2 other hother)
      · exact hnone (h.lasting ⟨other, hother, htool⟩)
    -- none is found: the run is cancelled
    case isFalse hempty =>
      have hempty : ¬ ∃ step, v.CountsEffect step := fun h => hempty (.inr (hany.mpr h))
      refine ⟨fun h => ⟨fun ⟨step, hstep⟩ => absurd hstep (h.cancelled rfl step),
          fun ⟨step, hstep, _⟩ => absurd hstep (h.cancelled rfl step)⟩,
        fun h => ⟨fun _ step hstep => hempty (h.left ⟨step, hstep⟩), nofun,
          fun ⟨step, hstep, _⟩ => absurd (h.left ⟨step, hstep⟩) hempty⟩⟩

end

/-! ## Deciding -/

/-- A decision that raises nothing is committed. -/
theorem decide_commits {runtime : Runtime} {base : MemoryStore}
    {runId requestId bindingDigest actor reason : String} {decision : ApprovalDecision}
    {expectedVersion : ℤ} {occurredAt : Timestamp} :
    Tx.Ensures (ApprovalService.decide runtime runId requestId decision expectedVersion
      bindingDigest actor reason occurredAt) (fun exit _ => exit.Committed) base [] := by
  unfold ApprovalService.decide
  simp

/-- In every reachable state in which a run waits for an approval, a rejection sends the
run to where its effects belong exactly if they are counted. -/
theorem rejection_routes_by_effects_iff {cfg : Deployment} {permitted : World → Action → Prop}
    {w : World} (h : Reachable cfg permitted w) {runId : String} {v : RunView}
    (hv : w.shared.view runId = some v) (hstate : v.run.state = .waitingApproval)
    {requestId bindingDigest actor reason : String} {expectedVersion : ℤ}
    {decided : ApprovalRequest}
    (hdecided : (w.shared.inStore (ApprovalService.decide cfg.runtime runId requestId .rejected
      expectedVersion bindingDigest actor reason w.shared.clock)).1 = .ok decided) :
    ∃ v', (w.step cfg (.decide runId requestId .rejected expectedVersion bindingDigest actor
        reason)).shared.view runId = some v' ∧
      (v.RoutesByEffects v'.run.state ↔ v.EffectsCounted) := by
  obtain ⟨hrecord, hinFlight, hlatest⟩ := Shared.view_eq_some_iff.mp hv
  show ∃ v', (w.shared.inStore _).2.view runId = some v' ∧ _
  unfold Shared.inStore at hdecided ⊢
  cases htransact : w.shared.store.transact (ApprovalService.decide cfg.runtime runId requestId
      .rejected expectedVersion bindingDigest actor reason w.shared.clock) with
  | error e =>
      rw [htransact] at hdecided
      cases hdecided
  | ok result =>
      obtain ⟨request, next⟩ := result
      -- the decision commits the target that was computed from the store before it
      obtain ⟨moved, hmoved, htarget⟩ := Tx.Ensures.transact_committed (P := fun next =>
        ∃ moved, next.record runId = some moved ∧
          decisionTarget w.shared.store v.run .rejected = .ok moved.run.state)
        decide_commits
        ((decide_spec hrecord).mono fun _ staged hspec _ => by
          obtain ⟨_, target, _, _, _, _, _, _, _, _, htarget, _, _, hturns⟩ := hspec
          exact ⟨_, hturns.record hrecord, htarget⟩) htransact
      refine ⟨{ moved with inFlight := v.inFlight, latest := v.latest },
        Shared.view_eq_some_iff.mpr ⟨hmoved, hinFlight, hlatest⟩, ?_⟩
      rw [decisionTarget, rejectionTarget, MemoryStore.definitionOf_of_record hrecord,
        MemoryStore.runId_of_record hrecord] at htarget
      rw [← Except.ok.inj htarget]
      exact (h.sound hv).routes_iff hstate hrecord

namespace Sample

theorem exists_of_isOk {ε α : Type} {x : Except ε α} (h : x.isOk = true) : ∃ a, x = .ok a := by
  cases x with
  | error e => cases h
  | ok a => exact ⟨a, rfl⟩

/-- `a` changes something, and `b` needs an approval. -/
def changeThenDanger (undo : Option String) : List Action :=
  create [stepPayload "a" "change" [] undo, stepPayload "b" "danger" ["a"] none]

def reject (bindingDigest : String) : Action :=
  .decide "r" "n" .rejected 0 bindingDigest "operator" "no"

/-- The coordinator records the effect of `a`. -/
def recordedEffect : List Action :=
  changeThenDanger (some "undo") ++ runOnce ++ toolSucceeds 0 ++ runOnce

/-- The process crashes, and recovery finds the effect of `a`. -/
def recoveredEffect : List Action :=
  changeThenDanger none ++ runOnce ++ crash ++ recover (some (.found (.ofFields []))) ++ runOnce

end Sample

open Sample in
/-- An effect that the coordinator has recorded is counted, and compensated. -/
theorem rejection_routes_by_effects_iff_recorded :
    ∃ v v', (World.after deployment 0 recordedEffect).shared.view "r" = some v ∧
      ((World.after deployment 0 recordedEffect).step deployment (reject
        "40ffee99e64632b6d75f2ed408ad881e7b537fe279bb73d18c006ef4901d990a")).shared.view "r" =
          some v' ∧
      (v.RoutesByEffects v'.run.state ↔ v.EffectsCounted) := by
  obtain ⟨v, hv, hstate⟩ := exists_view (w := World.after deployment 0 recordedEffect)
    (P := fun v => v.run.state = .waitingApproval) (by decide +kernel)
  have hok : ((World.after deployment 0 recordedEffect).shared.inStore (ApprovalService.decide
      deployment.runtime "r" "n" .rejected 0
      "40ffee99e64632b6d75f2ed408ad881e7b537fe279bb73d18c006ef4901d990a" "operator" "no"
      (World.after deployment 0 recordedEffect).shared.clock)).1.isOk = true := by decide +kernel
  obtain ⟨decided, hdecided⟩ := exists_of_isOk hok
  obtain ⟨v', hv', hroutes⟩ :=
    rejection_routes_by_effects_iff (reachable_after 0 recordedEffect) hv hstate hdecided
  exact ⟨v, v', hv, hv', hroutes⟩

open Sample in
/-- An effect that recovery has found is forgotten, and the run is cancelled. -/
theorem rejection_forgets_recovered_effect :
    ∃ v v', (World.after deployment 0 recoveredEffect).shared.view "r" = some v ∧
      v.run.state = .waitingApproval ∧ (∃ step, v.LeavesEffect step) ∧
      ((World.after deployment 0 recoveredEffect).step deployment (reject
        "08db1b027aa269ad1d21cdc195e7c65456620bb0a82711317e3c1064933dd55f")).shared.view "r" =
          some v' ∧
      v'.run.state = .cancelled ∧ ¬ v.RoutesByEffects v'.run.state := by
  obtain ⟨v, hv, hstate, step, hstep, heffect⟩ : ∃ v,
      (World.after deployment 0 recoveredEffect).shared.view "r" = some v ∧
      v.run.state = .waitingApproval ∧ ∃ step ∈ v.definition.steps,
        (∃ a ∈ v.attempts.rows, a.stepId = step.id ∧ a.ForwardEffect) ∧
          ∀ a ∈ v.attempts.rows, a.stepId = step.id → a.phase = .compensation → ¬ a.Completed :=
    exists_view (by decide +kernel)
  obtain ⟨v', hv', hcancelled⟩ : ∃ v',
      ((World.after deployment 0 recoveredEffect).step deployment (reject
        "08db1b027aa269ad1d21cdc195e7c65456620bb0a82711317e3c1064933dd55f")).shared.view "r" =
          some v' ∧ v'.run.state = .cancelled := exists_view (by decide +kernel)
  exact ⟨v, v', hv, hstate, ⟨step, hstep, heffect⟩, hv', hcancelled,
    fun h => h.cancelled hcancelled step ⟨hstep, heffect⟩⟩

end ChangePilot
