import ChangePilot.Guarantees.Outcomes

/-!
# Results that are not known

An attempt whose result is unknown is the last forward attempt of a step that says so, or
its run has ended.  Together with what else holds of a run under one coordinator and with
recovery at restart, a run is quiet when no step of it has an unresolved attempt.
-/

namespace ChangePilot

/-! ## Unknown results and the states of steps -/

/-- What awaits recovery is the last attempt of a step of which the result is unknown. -/
def RunView.TellsUnknown (v : RunView) : Prop :=
  ∀ a ∈ v.attempts.rows, a.AwaitsRecovery → v.run.state.Terminal ∨
    (a.phase = .forward ∧ v.Last a ∧ v.stateOf a.stepId = some .resultUnknown)

section

variable {cfg : Deployment} {cause : Cause} {v v' : RunView}

theorem RunMove.terminal (h : RunMove cfg v cause v') (hv : v.run.state.Terminal) :
    v'.run.state.Terminal := by
  rcases h.run_state with hsame | htransition
  · rwa [hsame]
  · exact absurd hv (RunState.not_terminal_of_transition htransition)

/-- The last attempt of a step that is not running stays the last. -/
theorem RunMove.last_kept (h : RunMove cfg v cause v') (hkeyed : v.Keyed) {a : StepAttempt}
    (hlast : v.Last a) (ha : a ∈ v'.attempts.rows) (hphase : a.phase = .forward)
    (hstate : v'.stateOf a.stepId ≠ some .running) : v'.Last a := by
  refine ⟨ha, fun b hb hid hkind => ?_⟩
  rcases h.attempt_origin hkeyed hb with ⟨c, hc, hkey⟩ | ⟨_, _, hnew | hnew⟩
  · obtain ⟨_, hcId, hcNo, hcKind⟩ := StepAttempt.key_eq_iff.mp hkey
    rw [← hcNo]
    exact hlast.greatest c hc (hcId.trans hid) (hcKind.trans hkind)
  · exact absurd (hid ▸ hnew.2.2.2) hstate
  · exact absurd (hnew.1.symm.trans (hkind.trans hphase)) (by decide)

/-- What recovery has decided awaits recovery no more. -/
theorem StepAttempt.not_awaitsRecovery_applied (a : StepAttempt) (occurredAt : Timestamp)
    (result : Value) : ¬ (a.applied occurredAt result).AwaitsRecovery := by
  simp [AwaitsRecovery, applied]

theorem StepAttempt.not_awaitsRecovery_closed (a : StepAttempt) {status : AttemptStatus}
    (occurredAt : Timestamp) (hstatus : status ∈ [.notApplied, .manualIntervention]) :
    ¬ (a.closed status occurredAt).AwaitsRecovery := by
  simp only [List.mem_cons, List.not_mem_nil, or_false] at hstatus
  rcases hstatus with rfl | rfl <;> simp [AwaitsRecovery, closed]

/-- An outcome awaits recovery if it is a failure that leaves the result unknown. -/
theorem StepAttempt.failed_of_awaitsRecovery {a : StepAttempt} {outcome : ExecutionOutcome}
    {completedAt : Timestamp} {nextAttemptAt : Option Timestamp} {result : Value}
    (h : (a.completedWith outcome completedAt nextAttemptAt result).AwaitsRecovery) :
    outcome.status = .failed ∧ outcome.errorClass = some .resultUnknown := by
  simp only [AwaitsRecovery, completedWith] at h
  rcases h with hstatus | ⟨hclass, _⟩
  · rcases outcome.status_eq with heq | heq <;> simp [heq] at hstatus
  · refine ⟨outcome.status_eq.resolve_left fun hsuccess => ?_, hclass⟩
    unfold ExecutionOutcome.status at hsuccess
    unfold ExecutionOutcome.errorClass at hclass
    split at hsuccess <;> simp_all

theorem RunMove.tellsUnknown (h : RunMove cfg v cause v') (hv : v.TellsUnknown)
    (hsound : v.Sound) (hlogged : v.Logged) (htracked : v.Tracked) : v'.TellsUnknown := by
  intro a ha hawaits
  refine or_iff_not_imp_left.mpr fun hopen' => ?_
  have hopen : ¬ v.run.state.Terminal := fun hterminal => hopen' (h.terminal hterminal)
  -- An attempt that was there, of a step that keeps its state.
  have old (hmem : a ∈ v.attempts.rows) (hstate : v.Last a → a.phase = .forward →
      v.stateOf a.stepId = some .resultUnknown → v'.stateOf a.stepId = some .resultUnknown) :
      a.phase = .forward ∧ v'.Last a ∧ v'.stateOf a.stepId = some .resultUnknown := by
    obtain ⟨hphase, hlast, hunknown⟩ := (hv a hmem hawaits).resolve_left hopen
    have hstate' := hstate hlast hphase hunknown
    exact ⟨hphase, h.last_kept hsound.keyed hlast ha hphase (by simp [hstate']), hstate'⟩
  have same (hsteps : v'.steps a.stepId = v.steps a.stepId)
      (hunknown : v.stateOf a.stepId = some .resultUnknown) :
      v'.stateOf a.stepId = some .resultUnknown := by
    rwa [RunRecord.stateOf, hsteps]
  have known {row : StepRun} (hrow : v.steps a.stepId = some row)
      (hstate : row.state ≠ .resultUnknown) : v.stateOf a.stepId ≠ some .resultUnknown := by
    rw [RunRecord.stateOf, hrow]
    exact fun hunknown => hstate (Option.some.inj hunknown)
  have elsewhere {id : String} {row changed : StepRun} (hrow : v.steps id = some row)
      (hstate : row.state ≠ .resultUnknown)
      (hsteps : v'.steps = Function.update v.steps id (some changed))
      (hunknown : v.stateOf a.stepId = some .resultUnknown) :
      v'.stateOf a.stepId = some .resultUnknown := by
    refine same ?_ hunknown
    rw [hsteps, Function.update_of_ne]
    rintro rfl
    exact known hrow hstate hunknown
  -- The unresolved attempt of a step is the last one, so that it cannot have stayed.
  have recovered {id : String} {row changed : StepRun} {decided new : StepAttempt}
      (hrow : v.steps id = some row)
      (hunresolved : unresolvedAmong row (v.stepAttempts id) = some decided)
      (hattempts : v'.attempts = v.attempts.put new) (hkey : decided.key = new.key)
      (hnew : ¬ new.AwaitsRecovery)
      (hsteps : v'.steps = Function.update v.steps id (some changed)) :
      a.phase = .forward ∧ v'.Last a ∧ v'.stateOf a.stepId = some .resultUnknown := by
    obtain ⟨hdecided, hid⟩ := RunRecord.mem_stepAttempts.mp (unresolvedAmong_spec hunresolved).1
    rcases KeyedTable.mem_put.mp (hattempts ▸ ha) with rfl | ⟨hmem, hne⟩
    · exact absurd hawaits hnew
    refine old hmem fun hlast hphase hunknown => same ?_ hunknown
    rw [hsteps, Function.update_of_ne]
    intro hsame
    have hforward : decided.phase = .forward := by
      cases hcase : decided.phase with
      | forward => rfl
      | probe => exact absurd hcase (hsound.phases decided hdecided)
      | compensation =>
          have hsucceeded := hsound.compensations decided hdecided hcase
          rw [hid, ← hsame, hunknown] at hsucceeded
          exact absurd (Option.some.inj hsucceeded) (by decide)
    refine hne (hkey ▸ congrArg StepAttempt.key ?_)
    exact hsound.keyed.last_unique hlast (hlogged.last_unresolved hunresolved)
      (hsame.trans hid.symm) (hphase.trans hforward.symm)
  cases h with
  | tick | forget | barrier | compensated | decided | cancelled => exact old ha fun _ _ h => h
  | retriesDue _ hsteps =>
      refine old ha fun _ _ hunknown => ?_
      rcases hsteps a.stepId with hsame | ⟨row, _, _, hrow, hstate, _⟩
      · exact same hsame hunknown
      · exact absurd hunknown (known hrow (by simp [hstate]))
  | dependenciesReady _ hsteps =>
      refine old ha fun _ _ hunknown => ?_
      rcases hsteps a.stepId with hsame | ⟨_, _, row, _, hrow, hstate, _⟩
      · exact same hsame hunknown
      · exact absurd hunknown (known hrow (by simp [hstate]))
  | forwardStarted _ _ hrow hready hnext =>
      rcases KeyedTable.mem_put.mp ha with rfl | ⟨hmem, _⟩
      · simp [StepAttempt.AwaitsRecovery, hnext.status, hnext.errorClass] at hawaits
      · exact old hmem fun _ _ => elsewhere hrow (by simp [hready]) rfl
  | compensationStarted _ _ _ _ hnext =>
      rcases KeyedTable.mem_put.mp ha with rfl | ⟨hmem, _⟩
      · simp [StepAttempt.AwaitsRecovery, hnext.status, hnext.errorClass] at hawaits
      · exact old hmem fun _ _ h => h
  | @forwardFinished _ step row attempt outcome _ completedAt nextState nextAttemptAt result _ _ _
      hsource _ _ hrow hattempt hphase hresult =>
      obtain ⟨hmem, hid, _⟩ := RunRecord.findAttempt_eq_some hattempt
      obtain ⟨hrunning, _⟩ := htracked.finds hsound hsource hattempt
      have hforward : attempt.phase = .forward := by
        cases hcase : attempt.phase with
        | forward => rfl
        | probe => exact absurd hcase (hsound.phases attempt hmem)
        | compensation => exact absurd hcase hphase
      have hstate := htracked.active attempt hmem hforward hrunning
      rw [hid, RunRecord.stateOf, hrow] at hstate
      have hstate : row.state = .running := Option.some.inj hstate
      rcases KeyedTable.mem_put.mp ha with rfl | ⟨hold, _⟩
      · obtain ⟨hfailed, hclass⟩ := StepAttempt.failed_of_awaitsRecovery hawaits
        have hunknown : nextState = .resultUnknown := by
          rcases forwardResult_spec hresult with ⟨hsuccess, _⟩ |
            ⟨_, ⟨hretryable, _⟩ | ⟨_, hnext, _⟩ | ⟨hother, _⟩⟩
          · exact absurd (hsuccess.symm.trans hfailed) (by decide)
          · exact absurd (hretryable.symm.trans hclass) (by decide)
          · exact hnext
          · exact absurd hclass hother
        refine ⟨hforward, (hlogged.finished attempt hmem hrunning).of_key_eq ha rfl
          fun b hb => ?_, ?_⟩
        · rcases KeyedTable.mem_put.mp hb with rfl | ⟨hb, _⟩
          exacts [⟨attempt, hmem, rfl⟩, ⟨b, hb, rfl⟩]
        · simp [RunRecord.stateOf, StepAttempt.completedWith, hid, RunRecord.finishedStep_state,
            hunknown]
      · exact old hold fun _ _ => elsewhere hrow (by simp [hstate]) rfl
  | compensationFinished _ _ _ _ hsettles =>
      rcases KeyedTable.mem_put.mp ha with rfl | ⟨hmem, _⟩
      · obtain ⟨hfailed, _⟩ := StepAttempt.failed_of_awaitsRecovery hawaits
        cases hsettles with
        | remaining hsuccess | completed hsuccess =>
            exact absurd (hsuccess.symm.trans hfailed) (by decide)
        | failed => exact absurd (show RunState.Terminal .manualIntervention by decide) hopen'
      · exact old hmem fun _ _ h => h
  | recoveredApplied _ hrow hunresolved =>
      exact recovered hrow hunresolved rfl rfl (StepAttempt.not_awaitsRecovery_applied _ _ _) rfl
  | recoveredNotApplied _ hrow hunresolved =>
      exact recovered hrow hunresolved rfl rfl
        (StepAttempt.not_awaitsRecovery_closed _ _ (by simp)) rfl
  | recoveredManual _ hrow hunresolved =>
      exact recovered hrow hunresolved rfl rfl
        (StepAttempt.not_awaitsRecovery_closed _ _ (by simp)) rfl

end

theorem Reachable.tellsUnknown {cfg : Deployment} {w : World}
    (h : Reachable cfg World.RecoversAtRestart w) {runId : String} {v : RunView}
    (hv : w.shared.view runId = some v) : v.TellsUnknown := by
  refine h.view_induction (P := RunView.TellsUnknown) ?_ ?_ hv
  · intro v hinitial _ _ a ha
    rw [hinitial.attempts] at ha
    exact absurd ha List.not_mem_nil
  · exact fun w action runId v v' hreachable _ hv hsound _ hmove htells =>
      hmove.tellsUnknown htells hsound (hreachable.logged hv) (hreachable.tracked hv)

theorem Reachable.steady {cfg : Deployment} {permitted : World → Action → Prop} {w : World}
    (h : Reachable cfg permitted w) {runId : String} {v : RunView}
    (hv : w.shared.view runId = some v) : v.Steady :=
  h.view_induction (P := RunView.Steady) (fun _ hinitial _ _ => RunView.steady_of_initial hinitial)
    (fun _ _ _ _ _ _ _ _ hsound _ hmove hsteady => hmove.steady hsound hsteady) hv

/-! ## Runs at a restart -/

/-- Nothing of the step is left to recovery. -/
def RunRecord.Resolved (v : RunRecord) (id : String) : Prop :=
  ∀ row, v.steps id = some row → unresolvedAmong row (v.stepAttempts id) = none

theorem unresolvedAmong_eq_none_iff {row : StepRun} {attempts : List StepAttempt} :
    unresolvedAmong row attempts = none ↔
      (∀ a ∈ attempts, a.status ≠ .running) ∧ (row.state = .resultUnknown → attempts = []) := by
  unfold unresolvedAmong
  by_cases hrunning : ∃ a ∈ attempts, a.status = .running
  · obtain ⟨a, ha, hstatus⟩ := hrunning
    have hne : attempts.filter (fun attempt => attempt.status = .running) ≠ [] :=
      List.ne_nil_of_mem (List.mem_filter.mpr ⟨ha, by simpa using hstatus⟩)
    rw [if_pos hne, List.argmax_eq_none]
    exact iff_of_false hne fun h => h.1 a ha hstatus
  · have hidle : ∀ a ∈ attempts, a.status ≠ .running := fun a ha hstatus =>
      hrunning ⟨a, ha, hstatus⟩
    rw [if_neg (by simpa using hidle)]
    split
    case isTrue hunknown =>
      rw [List.argmax_eq_none]
      exact ⟨fun hempty => ⟨hidle, fun _ => hempty⟩, fun h => h.2 hunknown⟩
    case isFalse hknown => exact iff_of_true rfl ⟨hidle, fun h => absurd h hknown⟩

/-- What holds of a run when the process has nothing in flight. -/
structure RunView.Restarted (v : RunView) : Prop where
  sound : v.Sound
  logged : v.Logged
  tracked : v.Tracked
  steady : v.Steady
  tellsUnknown : v.TellsUnknown
  compensates : v.CompensatesMeanwhile
  drained : v.inFlight = []

section

variable {cfg : Deployment} {cause : Cause} {v v' : RunView}

theorem RunMove.restarted (h : RunMove cfg v cause v') (hv : v.Restarted) (hkeyed : v'.Keyed)
    (hdrained : v'.inFlight = []) : v'.Restarted where
  sound := h.sound hv.sound hkeyed
  logged := h.logged hv.sound hkeyed hv.logged
  tracked := h.tracked hv.tracked hv.sound hv.logged fun _ => hv.drained
  steady := h.steady hv.sound hv.steady
  tellsUnknown := h.tellsUnknown hv.tellsUnknown hv.sound hv.logged hv.tracked
  compensates := h.compensatesMeanwhile hv.compensates hv.sound hv.tracked
  drained := hdrained

/-- An open run is quiet when nothing of it is left to recovery. -/
theorem RunView.Restarted.quiet_iff (hv : v.Restarted) (hopen : ¬ v.run.state.Terminal) :
    v.Quiet ↔ ∀ step ∈ v.definition.steps, v.Resolved step.id := by
  constructor
  · intro hquiet step hstep row hrow
    refine unresolvedAmong_eq_none_iff.mpr ⟨fun a ha => ?_, fun hunknown => ?_⟩
    · exact (hquiet.attempts a (RunRecord.mem_stepAttempts.mp ha).1).1
    · exact absurd (RunRecord.stateOf_eq_some_iff.mpr ⟨row, hrow, hunknown⟩)
        (hquiet.steps step hstep).2
  · intro hresolved
    -- The step of an attempt is one of the definition, and has a row.
    have stepOf {a : StepAttempt} (ha : a ∈ v.attempts.rows) : ∃ row, v.steps a.stepId = some row ∧
        unresolvedAmong row (v.stepAttempts a.stepId) = none := by
      obtain ⟨state, hstate, hbegun⟩ := hv.sound.started a ha
      obtain ⟨row, hrow, _⟩ := RunRecord.stateOf_eq_some_iff.mp hstate
      obtain ⟨step, hstep, hid, _⟩ := hv.sound.begun _ ⟨state, hstate, hbegun⟩
      exact ⟨row, hrow, hid ▸ hresolved step hstep row (hid ▸ hrow)⟩
    have idle {a : StepAttempt} (ha : a ∈ v.attempts.rows) : a.status ≠ .running := by
      obtain ⟨row, _, hnone⟩ := stepOf ha
      exact (unresolvedAmong_eq_none_iff.mp hnone).1 a (RunRecord.mem_stepAttempts.mpr ⟨ha, rfl⟩)
    have known {a : StepAttempt} (ha : a ∈ v.attempts.rows) :
        v.stateOf a.stepId ≠ some .resultUnknown := by
      obtain ⟨row, hrow, hnone⟩ := stepOf ha
      intro hunknown
      rw [RunRecord.stateOf, hrow] at hunknown
      have hempty := (unresolvedAmong_eq_none_iff.mp hnone).2 (Option.some.inj hunknown)
      exact absurd (RunRecord.mem_stepAttempts.mpr ⟨ha, rfl⟩) (by simp [hempty])
    refine ⟨fun step _ => ⟨fun hrunning => ?_, fun hunknown => ?_⟩, fun a ha => ⟨idle ha, ?_⟩⟩
    · obtain ⟨a, ha, _, _, hstatus⟩ := hv.tracked.running _ hrunning
      exact idle ha hstatus
    · obtain ⟨a, ha, hid, _⟩ := hv.steady _ _ hunknown
      exact known ha (hid ▸ hunknown)
    · exact fun hawaits => known ha ((hv.tellsUnknown a ha hawaits).resolve_left hopen).2.2

end

end ChangePilot
