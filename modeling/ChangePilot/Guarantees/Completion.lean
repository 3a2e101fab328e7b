import ChangePilot.System.Runs

/-!
# Dependencies and completion

A forward attempt starts when the dependencies of its step have succeeded, success
is final, and the run succeeds exactly with its last step.
-/

namespace ChangePilot

variable {cfg : Deployment}

/-- A step that starts forward has its dependencies behind it. -/
theorem RunMove.dependencies_of_start {v v' : RunView} {attempt : StepAttempt}
    (h : RunMove cfg v (.start attempt) v') (hv : v.Sound) (hphase : attempt.phase = .forward) :
    ∃ step ∈ v.definition.steps, step.id = attempt.stepId ∧
      ∀ d ∈ step.dependsOn, v.stateOf d = some .succeeded := by
  cases h with
  | @forwardStarted _ step _ _ _ _ _ _ hrow hready hnext =>
      rw [hnext.stepId]
      have hstate : v.stateOf step.id = some .ready :=
        RunRecord.stateOf_eq_some_iff.mpr ⟨_, hrow, hready⟩
      exact hv.begun step.id (RunRecord.begun_of_stateOf hstate (by decide))
  | compensationStarted _ _ _ _ hnext => exact absurd (hphase.symm.trans hnext.phase) (by decide)

/-- A step that has succeeded is still so after any further steps of the system. -/
theorem Reachable.stateOf_succeeded {runId id : String} (actions : List Action) :
    ∀ {w : World}, Reachable cfg (fun _ _ => True) w → ∀ {v : RunView},
      w.shared.view runId = some v → v.stateOf id = some .succeeded →
        ∃ v', (actions.foldl (World.step cfg) w).shared.view runId = some v' ∧
          v'.stateOf id = some .succeeded := by
  induction actions with
  | nil => intro w _ v hv hstate; exact ⟨v, hv, hstate⟩
  | cons action rest ih =>
      intro w h v hv hstate
      obtain ⟨v', hv', hstep⟩ := (h.good.step action).2.views runId v hv
      refine ih (.step action h trivial) hv' ?_
      rcases hstep with rfl | hmove
      · exact hstate
      · exact hmove.stateOf_succeeded hstate

/-- Whatever the order of dispatch, outcomes, retries, decisions, cancellations,
crashes and recovery: a forward attempt starts only when every dependency of its step
has succeeded; a step that has succeeded stays so; a run has succeeded only with all
its steps; and no run is left running with all its steps succeeded. -/
theorem forward_progress_is_exact (cfg : Deployment) (instant : Timestamp)
    (actions : List Action) :
    let w := World.after cfg instant actions
    (∀ action attempt, w.Starts (w.step cfg action) attempt → attempt.phase = .forward →
      ∃ v, w.shared.view attempt.runId = some v ∧
        ∃ step ∈ v.definition.steps, step.id = attempt.stepId ∧
          ∀ d ∈ step.dependsOn, v.stateOf d = some .succeeded) ∧
    ∀ runId v, w.shared.view runId = some v →
      (∀ id, v.stateOf id = some .succeeded → ∀ further : List Action,
        ∃ v', (further.foldl (World.step cfg) w).shared.view runId = some v' ∧
          v'.stateOf id = some .succeeded) ∧
      (v.run.state = .succeeded → v.AllSucceeded) ∧
      (v.run.state = .running → ¬ v.AllSucceeded) := by
  intro w
  have hreachable : Reachable cfg (fun _ _ => True) w := reachable_after instant actions
  refine ⟨fun action attempt hstarts hphase => ?_, fun runId v hv => ⟨fun id hstate further =>
    Reachable.stateOf_succeeded further hreachable hv hstate, ?_, ?_⟩⟩
  · obtain ⟨v, v', hv, _, _, hmove, _, hsound⟩ := hreachable.move_of_starts hstarts
    exact ⟨v, hv, hmove.dependencies_of_start hsound hphase⟩
  · exact (hreachable.sound hv).succeeded
  · exact (hreachable.sound hv).running

end ChangePilot
