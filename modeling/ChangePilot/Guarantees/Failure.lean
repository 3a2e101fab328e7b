import ChangePilot.Guarantees.Compensated

/-!
# Failed runs

A run fails when there is nothing to compensate.  A sibling of the failed step may
still be in flight then; when it turns out to have succeeded, its effect is recorded
and nobody undoes it.
-/

namespace ChangePilot

/-- No effect has been recorded that a tool could undo. -/
def RunRecord.NoEffects (v : RunRecord) : Prop :=
  ∀ step ∈ v.definition.steps, step.compensationTool.isSome →
    ¬ ∃ a ∈ v.attempts.rows, a.stepId = step.id ∧ a.ForwardEffect

theorem RunRecord.NoEffects.effectsCompensated {v : RunRecord} (h : v.NoEffects) :
    v.EffectsCompensated :=
  fun step hstep htool heffect => absurd heffect (h step hstep htool)

/-- The outcome reports an effect of a step that has a compensation tool. -/
def RunView.RecordsEffect (v : RunView) (cause : Cause) : Prop :=
  ∃ outcome, cause = .outcome outcome ∧ outcome.runId = v.run.runId ∧
    outcome.status = .success ∧ outcome.effectApplied = true ∧
    ∃ step ∈ v.definition.steps, step.id = outcome.stepId ∧ step.compensationTool.isSome

/-- No effect is reported for a run that has failed. -/
def World.RecordsNoLateEffect (w : World) (action : Action) : Prop :=
  ∀ runId v, w.shared.view runId = some v → v.run.state = .failed →
    ¬ v.RecordsEffect (w.cause action)

/-! ## Failed runs have no effects -/

/-- A write to an attempt that reports no effect. -/
theorem RunRecord.NoEffects.put {v w : RunRecord} (h : v.NoEffects) {new : StepAttempt}
    (hdefinition : w.definition = v.definition) (hattempts : w.attempts = v.attempts.put new)
    (hnew : new.ForwardEffect → ∀ step ∈ v.definition.steps, step.compensationTool.isSome →
      new.stepId ≠ step.id) : w.NoEffects := by
  rintro step hstep htool ⟨a, ha, hid, heffect⟩
  rw [hattempts] at ha
  rcases KeyedTable.mem_put.mp ha with rfl | ⟨ha, _⟩
  · exact hnew heffect step (hdefinition ▸ hstep) htool hid
  · exact h step (hdefinition ▸ hstep) htool ⟨a, ha, hid, heffect⟩

/-- An empty compensation order means that there is no effect to undo. -/
theorem RunView.Sound.noEffects {v : RunView} (hv : v.Sound)
    (hnone : compensationOrder v.definition v.stepRuns v.attempts.rows = .ok []) :
    v.NoEffects := by
  rintro step hstep htool ⟨a, ha, hid, heffect⟩
  have hsucceeded := hv.effects a ha heffect.1 heffect.2.1
  rw [hid] at hsucceeded
  exact absurd ((mem_compensationOrder hnone).mpr ⟨hstep, htool,
    (hv.keyed.stepStateIs_iff hstep).mpr hsucceeded, a, ha, hid, heffect⟩) List.not_mem_nil

/-- What holds of a failed run. -/
def RunView.FailedEmpty (v : RunView) : Prop := v.run.state = .failed → v.NoEffects

/-- A failed run stays without effects if none is reported late. -/
theorem RunMove.failedEmpty_kept {cfg : Deployment} {cause : Cause} {v v' : RunView}
    (h : RunMove cfg v cause v') (hlate : ¬ v.RecordsEffect cause)
    (hfailed : v.run.state = .failed) (hempty : v.NoEffects) : v'.NoEffects := by
  cases h with
  | tick | forget | retriesDue | dependenciesReady | barrier | compensated | decided | cancelled =>
      exact hempty
  | forwardStarted _ hrun =>
      rcases hrun with ⟨hrun, _⟩ | ⟨hrun, _⟩ <;> simp [hrun] at hfailed
  | compensationStarted hstate => simp [hstate] at hfailed
  -- an outcome that would record an effect is what the condition leaves out
  | @forwardFinished _ _ _ attempt outcome _ _ _ _ _ _ _ hrunId _ _ _ _ hattempt =>
      refine hempty.put rfl rfl ?_
      rintro ⟨_, hcompleted, heffect⟩ step hstep htool hid
      have hstepId : attempt.stepId = outcome.stepId := (RunRecord.findAttempt_eq_some hattempt).2.1
      have hsuccess : outcome.status = .success := by
        rcases hcompleted with hsuccess | hsucceeded
        · exact hsuccess
        · rcases outcome.status_eq with hstatus | hstatus
          · exact hstatus
          · exact absurd (hstatus.symm.trans hsucceeded) (by decide)
      exact hlate ⟨outcome, rfl, hrunId, hsuccess, heffect, step, hstep,
        hid.symm.trans hstepId, htool⟩
  | compensationFinished _ _ _ hphase =>
      exact hempty.put rfl rfl fun heffect => absurd (heffect.1.symm.trans hphase) (by decide)
  | recoveredApplied _ _ _ _ _ hstate => exact absurd hfailed hstate
  | recoveredNotApplied =>
      refine hempty.put rfl rfl fun heffect => ?_
      simp [StepAttempt.ForwardEffect, StepAttempt.Completed, StepAttempt.closed] at heffect
  | recoveredManual =>
      refine hempty.put rfl rfl fun heffect => ?_
      simp [StepAttempt.ForwardEffect, StepAttempt.Completed, StepAttempt.closed] at heffect

/-- A run fails with nothing to compensate. -/
theorem RunMove.noEffects_of_failed {cfg : Deployment} {cause : Cause} {v v' : RunView}
    (h : RunMove cfg v cause v') (hv' : v'.Sound) (hbefore : v.run.state ≠ .failed)
    (hafter : v'.run.state = .failed) : v'.NoEffects := by
  cases h with
  | tick | forget | retriesDue | dependenciesReady | compensationStarted | recoveredNotApplied =>
      exact absurd hafter hbefore
  | barrier _ _ _ _ hrun =>
      rcases hrun with ⟨_, rfl⟩ | ⟨_, rfl⟩
      · exact absurd hafter hbefore
      · simp at hafter
  | forwardStarted _ hrun =>
      rcases hrun with ⟨_, rfl⟩ | ⟨_, rfl⟩
      · simp at hafter
      · exact absurd hafter hbefore
  | forwardFinished _ _ _ _ _ _ _ _ _ hsettles =>
      cases hsettles with
      | unaffected => exact absurd hafter hbefore
      | completed | compensating => simp at hafter
      -- a run fails when the order of what is to be compensated is empty
      | failed _ _ hnone => exact hv'.noEffects hnone
  | compensationFinished _ _ _ _ hsettles =>
      cases hsettles with
      | remaining => exact absurd hafter hbefore
      | completed | failed => simp at hafter
  | compensated | cancelled => simp at hafter
  | decided _ _ _ htarget =>
      obtain rfl : _ = RunState.failed := hafter
      simp [runTransitions] at htarget
  | recoveredApplied _ _ _ _ _ _ _ hsettles =>
      cases hsettles with
      | unaffected => exact absurd hafter hbefore
      | completed | compensated | compensatedAtOnce => simp at hafter
  | recoveredManual _ _ _ _ _ hrun =>
      rcases hrun with rfl | rfl <;> simp at hafter

/-! ## The guarantee and its limit -/

/-- In every run of the system in which no effect is reported for a run that has already
failed, a failed run has no effect left that a tool could undo. -/
theorem failed_abandons_nothing {cfg : Deployment} {w : World}
    (h : Reachable cfg World.RecordsNoLateEffect w) {runId : String} {v : RunView}
    (hv : w.shared.view runId = some v) (hstate : v.run.state = .failed) :
    v.EffectsCompensated := by
  refine RunRecord.NoEffects.effectsCompensated
    (h.view_induction (P := RunView.FailedEmpty) ?_ ?_ hv hstate)
  · intro v hinitial _ _ hstate
    rw [hinitial.run] at hstate
    exact absurd hstate (by decide)
  · intro w action runId v v' _ hpermitted hv _ hsound' hmove hempty hafter
    by_cases hbefore : v.run.state = .failed
    · exact hmove.failedEmpty_kept (hpermitted runId v hv hbefore) hbefore (hempty hbefore)
    · exact hmove.noEffects_of_failed hsound' hbefore hafter

/-- The step reports no success for a run that has failed. -/
def reportsInTime (w : World) (action : Action) : Bool :=
  match w.cause action with
  | .outcome outcome => outcome.status ≠ .success ∨
      (w.shared.view outcome.runId).all (fun v => v.run.state ≠ .failed) = true
  | _ => true

theorem recordsNoLateEffect_of_reportsInTime {w : World} {action : Action}
    (h : reportsInTime w action) : w.RecordsNoLateEffect action := by
  rintro runId v hv hfailed ⟨outcome, hcause, hrun, hsuccess, _⟩
  have hview : w.shared.view outcome.runId = some v := by
    rw [hrun, MemoryStore.runId_of_record (Shared.view_eq_some_iff.mp hv).1, hv]
  simp [reportsInTime, hcause, hsuccess, hview, hfailed] at h

namespace Sample

/-- `A` succeeds with an effect that no tool undoes.  Then `B`, which can be undone and was in
flight with it, fails. -/
def failing : List Action :=
  create [stepPayload "A" "change" [] none, stepPayload "B" "change" [] (some "undo")] ++
    runOnce ++ toolSucceeds 0 ++ runOnce ++ toolFails 1 .permanent ++ runOnce

/-- `A` and `B` are in flight when `B` fails; then `A` succeeds. -/
def failedTooEarly : List Action :=
  create [stepPayload "A" "change" [] (some "undo"), stepPayload "B" "change" [] none] ++
    runOnce ++ toolFails 1 .permanent ++ runOnce ++ toolSucceeds 0 ++ runOnce

end Sample

open Sample in
theorem failed_abandons_nothing_failing :
    ∃ v, (World.after deployment 0 failing).shared.view "r" = some v ∧
      v.run.state = .failed ∧ (∃ a ∈ v.attempts.rows, a.stepId = "A" ∧ a.ForwardEffect) ∧
        v.EffectsCompensated := by
  have hreachable : Reachable deployment World.RecordsNoLateEffect
      (World.after deployment 0 failing) :=
    reachable_of_passes (fun _ _ => recordsNoLateEffect_of_reportsInTime) (.initial 0)
      (by decide +kernel)
  obtain ⟨v, hv, hstate, heffect⟩ := exists_view (w := World.after deployment 0 failing)
    (P := fun v => v.run.state = .failed ∧ ∃ a ∈ v.attempts.rows,
      a.stepId = "A" ∧ a.ForwardEffect) (by decide +kernel)
  exact ⟨v, hv, hstate, heffect, failed_abandons_nothing hreachable hv hstate⟩

open Sample in
/-- The run has failed and nothing runs any more, and the effect of `A` is in place. -/
theorem failed_with_effect_in_place :
    ∃ v, (World.after deployment 0 failedTooEarly).shared.view "r" = some v ∧
      v.run.state = .failed ∧ (∀ a ∈ v.attempts.rows, a.status ≠ .running) ∧
        ¬ v.EffectsCompensated :=
  exists_view (by decide +kernel)

end ChangePilot
