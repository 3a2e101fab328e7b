import ChangePilot.System.Sample

/-!
# Compensated runs

A run that is `COMPENSATED` has undone every effect that has a compensation tool,
provided that recovery finds no forward effect while the run is compensating: then
recovery ends the compensation at once, with everything still to be undone.
-/

namespace ChangePilot

/-- Every completed effect that declares a compensation tool has been compensated. -/
def RunRecord.EffectsCompensated (v : RunRecord) : Prop :=
  ∀ step ∈ v.definition.steps, step.compensationTool.isSome →
    (∃ a ∈ v.attempts.rows, a.stepId = step.id ∧ a.ForwardEffect) →
      ∃ a ∈ v.attempts.rows, a.stepId = step.id ∧ a.phase = .compensation ∧ a.Completed

instance (v : RunRecord) : Decidable v.EffectsCompensated :=
  inferInstanceAs (Decidable (∀ step ∈ v.definition.steps, _ → _ → _))

/-- Recovery is about to record that a forward attempt has taken effect. -/
def RunView.FindsEffect (cfg : Deployment) (v : RunView) (cause : Cause) : Prop :=
  ∃ step ∈ v.definition.steps, ∃ a ∈ v.stepAttempts step.id, ∃ expected answers instant output,
    cause = .recovery v.run.runId step.id expected answers instant ∧
      a.attemptNo = expected.attemptNo ∧ a.phase = expected.phase ∧ a.phase = .forward ∧
        probe cfg answers step a instant = .ok (some (.found output))

/-- No forward effect is found while the run it belongs to is compensating. -/
def World.FindsNoLateEffect (cfg : Deployment) (w : World) (action : Action) : Prop :=
  ∀ runId v, w.shared.view runId = some v → v.run.state = .compensating →
    ¬ v.FindsEffect cfg (w.cause action)

/-! ## What has been compensated stays so -/

/-- Nothing pending means that every effect is compensated. -/
theorem RunView.Sound.effectsCompensated {v : RunView} (hv : v.Sound)
    (hpending : pendingCompensations v.definition v.stepRuns v.attempts.rows = .ok []) :
    v.EffectsCompensated := by
  rintro step hstep htool ⟨a, ha, hid, heffect⟩
  by_contra hopen
  have hsucceeded := hv.effects a ha heffect.1 heffect.2.1
  rw [hid] at hsucceeded
  have hmem := (hv.keyed.mem_pending hpending).mpr ⟨⟨hstep, htool, hsucceeded, a, ha, hid, heffect⟩,
    fun b hb hbid hphase hcompleted => hopen ⟨b, hb, hbid, hphase, hcompleted⟩⟩
  exact absurd hmem List.not_mem_nil

/-- A write to an attempt that is no forward effect, and whose row was not a completed
compensation unless it is now, keeps the effects compensated. -/
theorem RunRecord.EffectsCompensated.put {v w : RunRecord} (h : v.EffectsCompensated)
    {old new : StepAttempt} (hdefinition : w.definition = v.definition)
    (hattempts : w.attempts = v.attempts.put new) (hold : old ∈ v.attempts.rows)
    (hkey : old.key = new.key) (hcompensation : new.phase = .compensation)
    (hkeeps : old.Completed → new.Completed) : w.EffectsCompensated := by
  rintro step hstep htool ⟨a, ha, hid, heffect⟩
  rw [hattempts] at ha ⊢
  rcases KeyedTable.mem_put.mp ha with rfl | ⟨ha, _⟩
  · exact absurd (heffect.1.symm.trans hcompensation) (by decide)
  obtain ⟨b, hb, hbid, hphase, hcompleted⟩ := h step (hdefinition ▸ hstep) htool ⟨a, ha, hid, heffect⟩
  by_cases hb' : b.key = new.key
  · obtain rfl := v.attempts.eq_of_key_eq hb hold (hb'.trans hkey.symm)
    obtain ⟨_, hnew, _⟩ := StepAttempt.key_eq_iff.mp hkey
    exact ⟨new, KeyedTable.mem_put.mpr (Or.inl rfl), hnew.symm.trans hbid, hcompensation,
      hkeeps hcompleted⟩
  · exact ⟨b, KeyedTable.mem_put.mpr (Or.inr ⟨hb, hb'⟩), hbid, hphase, hcompleted⟩

/-- What holds of a compensated run. -/
def RunView.FullyCompensated (v : RunView) : Prop :=
  v.run.state = .compensated → v.Undoing ∧ v.EffectsCompensated

/-- A compensated run stays one that has undone its effects. -/
theorem RunMove.fullyCompensated_kept {cfg : Deployment} {cause : Cause} {v v' : RunView}
    (h : RunMove cfg v cause v') (hv : v.Sound) (hcompensated : v.run.state = .compensated)
    (hundoing : v.Undoing) (heffects : v.EffectsCompensated) : v'.EffectsCompensated := by
  cases h with
  | tick | forget | retriesDue | dependenciesReady | barrier | compensated | decided | cancelled =>
      exact heffects
  | forwardStarted _ hrun =>
      rcases hrun with ⟨hrun, _⟩ | ⟨hrun, _⟩ <;> simp [hrun] at hcompensated
  | compensationStarted hstate => simp [hstate] at hcompensated
  | forwardFinished _ hsource _ _ _ hattempt hphase =>
      exact absurd (hsource.compensation_of_undoing hv hundoing hattempt) hphase
  | compensationFinished _ _ hattempt hphase hsettles =>
      refine heffects.put rfl rfl (RunRecord.findAttempt_eq_some hattempt).1 rfl hphase fun _ => ?_
      cases hsettles with
      | remaining hsuccess | completed hsuccess => exact Or.inl hsuccess
      | failed _ htransition =>
          simp [hcompensated, runTransitions] at htransition
  | recoveredApplied _ hrow hunresolved =>
      obtain ⟨ha, _, hphase⟩ := hundoing.unresolved hv hrow hunresolved
      exact heffects.put rfl rfl ha rfl hphase fun _ => Or.inr rfl
  | recoveredNotApplied _ hrow hunresolved =>
      obtain ⟨ha, hrunning, hphase⟩ := hundoing.unresolved hv hrow hunresolved
      exact heffects.put rfl rfl ha rfl hphase fun hcompleted => by
        simp [StepAttempt.Completed, hrunning] at hcompleted
  | recoveredManual _ _ _ _ htransition =>
      simp [hcompensated, runTransitions] at htransition

/-- A move into `COMPENSATED` is made when nothing forward is left and every effect is
compensated, unless recovery finds a forward effect. -/
theorem RunMove.fullyCompensated_entered {cfg : Deployment} {cause : Cause} {v v' : RunView}
    (h : RunMove cfg v cause v') (hv : v.Sound) (hv' : v'.Sound)
    (hlate : v.run.state = .compensating → ¬ v.FindsEffect cfg cause)
    (hbefore : v.run.state ≠ .compensated) (hafter : v'.run.state = .compensated) :
    v.Undoing ∧ v'.EffectsCompensated := by
  have undoing {a : StepAttempt} (ha : a ∈ v.attempts.rows) (hphase : a.phase = .compensation) :
      v.Undoing := hv.undoing ⟨a, ha, hphase⟩
  cases h with
  -- these moves leave the state of the run
  | tick | forget | retriesDue | dependenciesReady | compensationStarted | recoveredNotApplied =>
      exact absurd hafter hbefore
  | barrier _ _ _ _ hrun =>
      rcases hrun with ⟨_, rfl⟩ | ⟨_, rfl⟩
      · exact absurd hafter hbefore
      · simp at hafter
  | forwardStarted _ hrun =>
      rcases hrun with ⟨_, rfl⟩ | ⟨_, rfl⟩
      · simp at hafter
      · exact absurd hafter hbefore
  | forwardFinished _ _ _ _ _ _ _ _ _ hsettles =>
      cases hsettles with
      | unaffected => exact absurd hafter hbefore
      | completed | failed | compensating => simp at hafter
  | compensationFinished _ _ hattempt hphase hsettles =>
      cases hsettles with
      | remaining => exact absurd hafter hbefore
      | failed => simp at hafter
      -- the last compensation has succeeded
      | completed _ hpending =>
          exact ⟨undoing (RunRecord.findAttempt_eq_some hattempt).1 hphase,
            hv'.effectsCompensated hpending⟩
  -- nothing is left to compensate in a quiet run
  | compensated hstate hquiet hdrained hpending =>
      exact ⟨⟨by simp [hstate], hv.idle hquiet, fun a ha _ => (hquiet.attempts a ha).1,
        by simp [hdrained]⟩, hv'.effectsCompensated hpending⟩
  | decided _ _ _ htarget =>
      obtain rfl : _ = RunState.compensated := hafter
      simp [runTransitions] at htarget
  | cancelled => simp at hafter
  | @recoveredApplied _ step _ _ attempt expected answers output _ instant _ hstep hrow hunresolved
      hexpected hprobe _ _ hsettles =>
      have hmem := (unresolvedAmong_spec hunresolved).1
      cases hsettles with
      | unaffected => exact absurd hafter hbefore
      | completed => simp at hafter
      -- the same, found by the probe
      | compensated _ hphase hpending =>
          exact ⟨undoing (RunRecord.mem_stepAttempts.mp hmem).1 hphase,
            hv'.effectsCompensated hpending⟩
      -- the shortcut of recovery, which the condition leaves out
      | compensatedAtOnce hstate hphase =>
          exact absurd ⟨step, hstep, attempt, hmem, expected, answers, instant, output, rfl,
            hexpected.1.symm, hexpected.2.symm, hphase, hprobe⟩ (hlate hstate)
  | recoveredManual _ _ _ _ _ hrun =>
      rcases hrun with rfl | rfl <;> simp at hafter

theorem RunMove.fullyCompensated {cfg : Deployment} {cause : Cause} {v v' : RunView}
    (h : RunMove cfg v cause v') (hv : v.Sound) (hv' : v'.Sound)
    (hlate : v.run.state = .compensating → ¬ v.FindsEffect cfg cause)
    (hfully : v.FullyCompensated) : v'.FullyCompensated := by
  intro hafter
  by_cases hbefore : v.run.state = .compensated
  · obtain ⟨hundoing, heffects⟩ := hfully hbefore
    exact ⟨h.undoing_kept hv hundoing, h.fullyCompensated_kept hv hbefore hundoing heffects⟩
  · obtain ⟨hundoing, heffects⟩ := h.fullyCompensated_entered hv hv' hlate hbefore hafter
    exact ⟨h.undoing_kept hv hundoing, heffects⟩

/-! ## The guarantee and its limit -/

/-- In every run of the system in which recovery finds no forward effect of a run that
is compensating, a compensated run has undone all effects that can be undone. -/
theorem compensated_is_complete {cfg : Deployment} {w : World}
    (h : Reachable cfg (World.FindsNoLateEffect cfg) w) {runId : String} {v : RunView}
    (hv : w.shared.view runId = some v) (hstate : v.run.state = .compensated) :
    v.EffectsCompensated := by
  refine (h.view_induction (P := RunView.FullyCompensated) ?_ ?_ hv hstate).2
  · intro v hinitial _ _ hstate
    rw [hinitial.run] at hstate
    exact absurd hstate (by decide)
  · exact fun w action runId v v' _ hpermitted hv hsound hsound' hmove =>
      hmove.fullyCompensated hsound hsound' (hpermitted runId v hv)

/-- The step of a system that is not one of recovery's. -/
def notRecovery (w : World) (action : Action) : Bool :=
  match w.cause action with
  | .recovery .. => false
  | _ => true

theorem findsNoLateEffect_of_notRecovery {cfg : Deployment} {w : World} {action : Action}
    (h : notRecovery w action) : w.FindsNoLateEffect cfg action := by
  rintro runId v _ _ ⟨step, _, a, _, expected, answers, instant, output, hcause, _⟩
  simp [notRecovery, hcause] at h

namespace Sample

/-- `A` changes something and `B` fails, so that `A` is undone. -/
def undone : List Action :=
  create [stepPayload "A" "change" [] (some "undo"), stepPayload "B" "change" ["A"] none] ++
    runOnce ++ toolSucceeds 0 ++ runOnce ++ toolFails 1 .permanent ++ runOnce ++ toolSucceeds 2 ++
    runOnce

/-- `A` changes something, `C` fails, and the process crashes before the outcome of
`B` is recorded, which recovery then finds. -/
def abandoned : List Action :=
  create [stepPayload "A" "change" [] (some "undo"), stepPayload "B" "change" [] (some "undo"),
    stepPayload "C" "change" [] none] ++
    runOnce ++ toolSucceeds 0 ++ toolFails 2 .permanent ++ runOnce ++ crash ++
    recover (some (.found (.ofFields [])))

end Sample

open Sample in
/-- A run that is compensated with one effect undone. -/
theorem compensated_is_complete_undone :
    ∃ v, (World.after deployment 0 undone).shared.view "r" = some v ∧
      v.run.state = .compensated ∧ (∃ a ∈ v.attempts.rows, a.ForwardEffect) ∧
        v.EffectsCompensated := by
  have hreachable : Reachable deployment (World.FindsNoLateEffect deployment)
      (World.after deployment 0 undone) :=
    reachable_of_passes (fun _ _ => findsNoLateEffect_of_notRecovery) (.initial 0)
      (by decide +kernel)
  obtain ⟨v, hv, hstate, heffect⟩ := exists_view (w := World.after deployment 0 undone)
    (P := fun v => v.run.state = .compensated ∧ ∃ a ∈ v.attempts.rows, a.ForwardEffect)
    (by decide +kernel)
  exact ⟨v, hv, hstate, heffect, compensated_is_complete hreachable hv hstate⟩

open Sample in
/-- Recovery finds the effect of `B` and declares the run compensated, with the effects
of `A` and `B` in place. -/
theorem compensated_with_effects_in_place :
    ∃ v, (World.after deployment 0 abandoned).shared.view "r" = some v ∧
      v.run.state = .compensated ∧ ¬ v.EffectsCompensated :=
  exists_view (by decide +kernel)

end ChangePilot
