import ChangePilot.System.RunMoves

/-!
# Invariants of one run

`Sound` collects what holds of a run whatever happens to it, with requests in
flight while recovery is at work.  Each field is preserved for its own reason, by a
lemma of its own about one move.

The fields lean on each other.  That a waiting run is quiet (`waiting`) needs that outcomes
come from requests in flight, that a running run has a step to go (`running`) needs that a
waiting one has, and that a succeeded run has none (`succeeded`) needs that compensations
belong to runs that undo their steps (`undoing`).  Hence the lemmas assume `Sound` of the
state before the move as a whole, and `RunMove.sound` puts them together.
-/

namespace ChangePilot

/-! ## What every move leaves alone -/

section

variable {cfg : Deployment} {cause : Cause} {v v' : RunView}

theorem RunMove.definition_eq (h : RunMove cfg v cause v') : v'.definition = v.definition := by
  cases h <;> rfl

/-- The run changes state along its table only. -/
theorem RunMove.run_state (h : RunMove cfg v cause v') :
    v'.run.state = v.run.state ∨ v'.run.state ∈ runTransitions v.run.state := by
  cases h with
  | barrier _ _ _ _ hrun =>
      rcases hrun with ⟨_, rfl⟩ | ⟨htarget, rfl⟩
      · exact Or.inl rfl
      · exact Or.inr htarget
  | forwardStarted _ hrun =>
      rcases hrun with ⟨hpending, rfl⟩ | ⟨_, rfl⟩
      · exact Or.inr (by simp [hpending, runTransitions])
      · exact Or.inl rfl
  | forwardFinished _ _ _ _ _ _ _ _ _ hsettles =>
      cases hsettles with
      | unaffected => exact Or.inl rfl
      -- each of them starts from running
      | completed hrunning | failed hrunning | compensating hrunning =>
          refine Or.inr ?_
          rw [show v.run.state = .running from hrunning]
          simp [runTransitions]
  | compensationFinished _ _ _ _ hsettles =>
      cases hsettles with
      | remaining => exact Or.inl rfl
      | completed _ _ htransition | failed _ htransition => exact Or.inr htransition
  | compensated hstate => exact Or.inr (by simp [hstate, runTransitions])
  | decided _ _ hstate htarget => exact Or.inr (by rw [hstate]; exact htarget)
  | cancelled htransition => exact Or.inr htransition
  | recoveredApplied _ _ _ _ _ _ _ hsettles =>
      cases hsettles with
      | unaffected => exact Or.inl rfl
      | compensated hstate | compensatedAtOnce hstate | completed hstate =>
          refine Or.inr ?_
          rw [show v.run.state = _ from hstate]
          simp [runTransitions]
  | recoveredManual _ _ _ _ htransition hrun =>
      rcases hrun with rfl | rfl <;> exact Or.inr htransition
  | _ => exact Or.inl rfl

/-- A step keeps its row, or changes state along its table. -/
theorem RunMove.steps_eq_or (h : RunMove cfg v cause v') (id : String) :
    v'.steps id = v.steps id ∨ ∃ row row', v.steps id = some row ∧ v'.steps id = some row' ∧
      row'.state ∈ stepTransitions row.state := by
  -- a move changes the row of one step
  have update {stepId : String} {row changed : StepRun} (hrow : v.steps stepId = some row)
      (hchanged : changed = row ∨ changed.state ∈ stepTransitions row.state) :
      Function.update v.steps stepId (some changed) id = v.steps id ∨ ∃ row row',
        v.steps id = some row ∧ Function.update v.steps stepId (some changed) id = some row' ∧
          row'.state ∈ stepTransitions row.state := by
    by_cases hid : id = stepId
    · subst hid
      rcases hchanged with rfl | hstate
      · exact Or.inl (by simp [hrow])
      · exact Or.inr ⟨row, changed, hrow, by simp, hstate⟩
    · exact Or.inl (by simp [hid])
  cases h with
  | retriesDue _ hsteps =>
      rcases hsteps id with hsame | ⟨row, _, _, hrow, hstate, _, _, _, hsteps⟩
      · exact Or.inl hsame
      · exact Or.inr ⟨row, row.moved .ready, hrow, hsteps, by simp [hstate, stepTransitions]⟩
  | dependenciesReady _ hsteps =>
      rcases hsteps id with hsame | ⟨_, _, row, _, hrow, hstate, _, hsteps⟩
      · exact Or.inl hsame
      · exact Or.inr ⟨row, row.moved .ready, hrow, hsteps, by simp [hstate, stepTransitions]⟩
  | forwardStarted _ _ hrow hready =>
      exact update hrow (Or.inr (by simp [hready, stepTransitions]))
  | forwardFinished _ _ _ _ hrow _ _ _ htransition =>
      refine update hrow (Or.inr ?_)
      unfold RunRecord.finishedStep
      split <;> exact htransition
  | recoveredApplied _ hrow _ _ _ _ hchanged =>
      refine update hrow ?_
      rcases hchanged with ⟨_, htransition, rfl⟩ | ⟨_, rfl⟩
      exacts [Or.inr htransition, Or.inl rfl]
  | recoveredNotApplied _ hrow _ _ _ hchanged =>
      refine update hrow ?_
      rcases hchanged with ⟨_, htransition, rfl⟩ | ⟨_, rfl⟩
      exacts [Or.inr htransition, Or.inl rfl]
  | recoveredManual _ hrow _ _ _ _ hchanged =>
      refine update hrow ?_
      rcases hchanged with ⟨_, htransition, rfl⟩ | ⟨_, rfl⟩
      exacts [Or.inr htransition, Or.inl rfl]
  | _ => exact Or.inl rfl

/-- A step that has succeeded stays so. -/
theorem RunMove.stateOf_succeeded (h : RunMove cfg v cause v') {id : String}
    (hid : v.stateOf id = some .succeeded) : v'.stateOf id = some .succeeded := by
  obtain ⟨row, hrow, hstate⟩ := RunRecord.stateOf_eq_some_iff.mp hid
  rcases h.steps_eq_or id with hsame | ⟨row₀, _, hrow₀, _, htransition⟩
  · exact RunRecord.stateOf_eq_some_iff.mpr ⟨row, hsame.trans hrow, hstate⟩
  · obtain rfl : row = row₀ := Option.some.inj (hrow.symm.trans hrow₀)
    simp [hstate, stepTransitions] at htransition

/-- No step is added or lost. -/
theorem RunMove.isSome_steps (h : RunMove cfg v cause v') (id : String) :
    (v'.steps id).isSome = (v.steps id).isSome := by
  rcases h.steps_eq_or id with hsame | ⟨row, row', hrow, hrow', _⟩
  · rw [hsame]
  · simp [hrow, hrow']

end

/-! ## The invariant -/

/-- Every step of the definition has succeeded. -/
def RunRecord.AllSucceeded (v : RunRecord) : Prop :=
  ∀ step ∈ v.definition.steps, v.stateOf step.id = some .succeeded

/-- The step has left its initial state. -/
def RunRecord.Begun (v : RunRecord) (id : String) : Prop :=
  ∃ state, v.stateOf id = some state ∧ state ≠ .pending

theorem RunRecord.begun_of_stateOf {v : RunRecord} {id : String} {state : StepState}
    (h : v.stateOf id = some state) (hstate : state ≠ .pending) : v.Begun id :=
  ⟨state, h, hstate⟩

/-- What is true once a compensation has been started: nothing forward is left. -/
structure RunView.Undoing (v : RunView) : Prop where
  state : v.run.state ∈ [.compensating, .compensated, .manualIntervention]
  steps : ∀ id, v.stateOf id ≠ some .running ∧ v.stateOf id ≠ some .resultUnknown
  attempts : ∀ a ∈ v.attempts.rows, a.phase = .forward → a.status ≠ .running
  inFlight : ∀ future ∈ v.inFlight, future.2.phase = .compensation

/-- The request was dispatched for the attempt. -/
structure ToolExecutionContext.IsFor (context : ToolExecutionContext) (a : StepAttempt) :
    Prop where
  stepId : context.stepId = a.stepId
  attemptNo : context.attemptNumber = a.attemptNo
  phase : context.phase = a.phase

structure RunView.Sound (v : RunView) : Prop where
  keyed : v.Keyed
  begun : ∀ id, v.Begun id → ∃ step ∈ v.definition.steps, step.id = id ∧
    ∀ d ∈ step.dependsOn, v.stateOf d = some .succeeded
  phases : ∀ a ∈ v.attempts.rows, a.phase ≠ .probe
  started : ∀ a ∈ v.attempts.rows, v.Begun a.stepId
  fresh : v.run.state = .pending → v.attempts.rows = []
  waiting : v.run.state = .waitingApproval → v.Quiet ∧ v.inFlight = [] ∧ ¬ v.AllSucceeded
  running : v.run.state = .running → ¬ v.AllSucceeded
  succeeded : v.run.state = .succeeded → v.AllSucceeded
  effects : ∀ a ∈ v.attempts.rows, a.phase = .forward → a.Completed →
    v.stateOf a.stepId = some .succeeded
  compensations : ∀ a ∈ v.attempts.rows, a.phase = .compensation →
    v.stateOf a.stepId = some .succeeded
  undoing : (∃ a ∈ v.attempts.rows, a.phase = .compensation) → v.Undoing
  inFlight : ∀ future ∈ v.inFlight, ∃ a ∈ v.attempts.rows, future.2.IsFor a
  futures : (v.inFlight.map Prod.fst).Nodup

/-! ## Moves keep it -/

section

variable {cfg : Deployment} {cause : Cause} {v v' : RunView}

/-- A pending step becomes ready when its dependencies have succeeded, and not
otherwise. -/
theorem RunMove.begun_of_pending (h : RunMove cfg v cause v') (hv : v.Sound) {id : String}
    (hbefore : v.stateOf id = some .pending) (hafter : v'.stateOf id ≠ some .pending) :
    ∃ step ∈ v.definition.steps, step.id = id ∧
      ∀ d ∈ step.dependsOn, v.stateOf d = some .succeeded := by
  obtain ⟨row, hrow, hpending⟩ := RunRecord.stateOf_eq_some_iff.mp hbefore
  have unchanged (hsame : v'.steps id = v.steps id) :
      ∃ step ∈ v.definition.steps, step.id = id ∧
        ∀ d ∈ step.dependsOn, v.stateOf d = some .succeeded := by
    refine absurd ?_ hafter
    rw [RunRecord.stateOf, hsame]
    exact hbefore
  -- A change of another row, or one from a state other than pending, is no such change.
  have elsewhere {stepId : String} {other changed : StepRun} (hother : v.steps stepId = some other)
      (hstate : other.state ≠ .pending)
      (hsteps : v'.steps = Function.update v.steps stepId (some changed)) :
      ∃ step ∈ v.definition.steps, step.id = id ∧
        ∀ d ∈ step.dependsOn, v.stateOf d = some .succeeded := by
    refine unchanged ?_
    rw [hsteps, Function.update_of_ne]
    rintro rfl
    obtain rfl : row = other := Option.some.inj (hrow.symm.trans hother)
    exact hstate hpending
  have attempted {a : StepAttempt} {stepId : String} {other : StepRun}
      (ha : a ∈ v.attempts.rows) (hid : a.stepId = stepId) (hother : v.steps stepId = some other) :
      other.state ≠ .pending := by
    obtain ⟨state, hstate, hbegun⟩ := hv.started a ha
    rw [hid, RunRecord.stateOf, hother] at hstate
    rwa [Option.some.inj hstate]
  cases h with
  | retriesDue _ hsteps =>
      rcases hsteps id with hsame | ⟨other, _, _, hother, hstate, _⟩
      · exact unchanged hsame
      · obtain rfl : row = other := Option.some.inj (hrow.symm.trans hother)
        simp [hstate] at hpending
  | dependenciesReady _ hsteps =>
      rcases hsteps id with hsame | ⟨step, hstep, _, hid, _, _, hdependencies, _⟩
      · exact unchanged hsame
      · exact ⟨step, hstep, hid, hdependencies⟩
  | forwardStarted _ _ hother hready => exact elsewhere hother (by simp [hready]) rfl
  | forwardFinished _ _ _ _ hother hattempt _ _ _ _ =>
      obtain ⟨ha, hid, _⟩ := RunRecord.findAttempt_eq_some hattempt
      exact elsewhere hother (attempted ha hid hother) rfl
  | recoveredApplied _ hother hunresolved _ _ _ _ =>
      obtain ⟨ha, hid⟩ := RunRecord.mem_stepAttempts.mp (unresolvedAmong_spec hunresolved).1
      exact elsewhere hother (attempted ha hid hother) rfl
  | recoveredNotApplied _ hother hunresolved _ _ _ =>
      obtain ⟨ha, hid⟩ := RunRecord.mem_stepAttempts.mp (unresolvedAmong_spec hunresolved).1
      exact elsewhere hother (attempted ha hid hother) rfl
  | recoveredManual _ hother hunresolved _ _ _ _ =>
      obtain ⟨ha, hid⟩ := RunRecord.mem_stepAttempts.mp (unresolvedAmong_spec hunresolved).1
      exact elsewhere hother (attempted ha hid hother) rfl
  | _ => exact unchanged rfl

/-- A step that has begun does not go back. -/
theorem RunMove.begun_kept (h : RunMove cfg v cause v') {id : String} (hid : v.Begun id) :
    v'.Begun id := by
  obtain ⟨state, hstate, hpending⟩ := hid
  rcases h.steps_eq_or id with hsame | ⟨row, row', _, hrow', htransition⟩
  · exact ⟨state, by rwa [RunRecord.stateOf, hsame], hpending⟩
  · refine ⟨row'.state, by simp [RunRecord.stateOf, hrow'], fun hback => ?_⟩
    exact StepState.pending_notMem_transitions _ (hback ▸ htransition)

/-- What has begun is a step of the definition whose dependencies have succeeded. -/
theorem RunMove.begun (h : RunMove cfg v cause v') (hv : v.Sound) (id : String)
    (hid : v'.Begun id) : ∃ step ∈ v'.definition.steps, step.id = id ∧
      ∀ d ∈ step.dependsOn, v'.stateOf d = some .succeeded := by
  obtain ⟨state', hstate', hpending'⟩ := hid
  have hbefore : ∃ step ∈ v.definition.steps, step.id = id ∧
      ∀ d ∈ step.dependsOn, v.stateOf d = some .succeeded := by
    cases hstate : v.stateOf id with
    | none =>
        have hnone := h.isSome_steps id
        rw [RunRecord.stateOf, Option.map_eq_some_iff] at hstate'
        obtain ⟨row, hrow, _⟩ := hstate'
        rw [RunRecord.stateOf, Option.map_eq_none_iff] at hstate
        simp [hrow, hstate] at hnone
    | some state =>
        by_cases hpending : state = .pending
        · exact h.begun_of_pending hv (hpending ▸ hstate) (by simp [hstate', hpending'])
        · exact hv.begun id ⟨state, hstate, hpending⟩
  obtain ⟨step, hstep, hstepId, hdependencies⟩ := hbefore
  exact ⟨step, h.definition_eq ▸ hstep, hstepId,
    fun d hd => h.stateOf_succeeded (hdependencies d hd)⟩

/-- Every attempt was there under its key, or has just been started. -/
theorem RunMove.attempt_origin (h : RunMove cfg v cause v') (hkeyed : v.Keyed) {x : StepAttempt}
    (hx : x ∈ v'.attempts.rows) :
    (∃ a ∈ v.attempts.rows, a.key = x.key) ∨
      (cause = .start x ∧ x.status = .running ∧
        ((x.phase = .forward ∧ v.run.state ∈ [.pending, .running] ∧
            v'.run.state = .running ∧ v'.stateOf x.stepId = some .running) ∨
          (x.phase = .compensation ∧ v.run.state = .compensating ∧
            v'.run.state = .compensating ∧ v'.stateOf x.stepId = some .succeeded))) := by
  -- most moves change an attempt that is there
  have put {a a' : StepAttempt} (hx : x ∈ (v.attempts.put a').rows)
      (ha : a ∈ v.attempts.rows) (hkey : a.key = a'.key) : ∃ a ∈ v.attempts.rows, a.key = x.key := by
    rcases KeyedTable.mem_put.mp hx with rfl | ⟨hx, _⟩
    · exact ⟨a, ha, hkey⟩
    · exact ⟨x, hx, rfl⟩
  cases h with
  | forwardStarted _ hrun hrow hready hnext =>
      rcases KeyedTable.mem_put.mp hx with rfl | ⟨hx, _⟩
      -- the attempt that is started now
      · refine Or.inr ⟨rfl, hnext.status, Or.inl ⟨hnext.phase, ?_, ?_, ?_⟩⟩
        · rcases hrun with ⟨hstate, _⟩ | ⟨hstate, _⟩ <;> simp [hstate]
        · rcases hrun with ⟨_, rfl⟩ | ⟨hstate, rfl⟩
          exacts [rfl, hstate]
        · simp [RunRecord.stateOf, hnext.stepId]
      · exact Or.inl ⟨x, hx, rfl⟩
  | compensationStarted hstate _ _ hpending hnext =>
      rcases KeyedTable.mem_put.mp hx with rfl | ⟨hx, _⟩
      -- only a succeeded step is compensated
      · obtain ⟨⟨_, _, hsucceeded, _⟩, _⟩ :=
          (hkeyed.mem_pending hpending).mp List.mem_cons_self
        rw [← hnext.stepId] at hsucceeded
        exact Or.inr ⟨rfl, hnext.status, Or.inr ⟨hnext.phase, hstate, hstate, hsucceeded⟩⟩
      · exact Or.inl ⟨x, hx, rfl⟩
  | forwardFinished _ _ _ _ _ hattempt =>
      exact Or.inl (put hx (RunRecord.findAttempt_eq_some hattempt).1 rfl)
  | compensationFinished _ _ hattempt =>
      exact Or.inl (put hx (RunRecord.findAttempt_eq_some hattempt).1 rfl)
  | recoveredApplied _ _ hunresolved =>
      exact Or.inl (put hx (RunRecord.mem_stepAttempts.mp (unresolvedAmong_spec hunresolved).1).1 rfl)
  | recoveredNotApplied _ _ hunresolved =>
      exact Or.inl (put hx (RunRecord.mem_stepAttempts.mp (unresolvedAmong_spec hunresolved).1).1 rfl)
  | recoveredManual _ _ hunresolved =>
      exact Or.inl (put hx (RunRecord.mem_stepAttempts.mp (unresolvedAmong_spec hunresolved).1).1 rfl)
  | _ => exact Or.inl ⟨x, hx, rfl⟩

theorem RunMove.attempt_kept (h : RunMove cfg v cause v') {a : StepAttempt}
    (ha : a ∈ v.attempts.rows) : ∃ x ∈ v'.attempts.rows, x.key = a.key := by
  cases h <;> first | exact ⟨a, ha, rfl⟩ | exact KeyedTable.exists_mem_put ha

theorem RunMove.phases (h : RunMove cfg v cause v') (hv : v.Sound) :
    ∀ x ∈ v'.attempts.rows, x.phase ≠ .probe := by
  intro x hx
  rcases h.attempt_origin hv.keyed hx with ⟨a, ha, hkey⟩ | ⟨_, _, hphase | hphase⟩
  · rw [← (StepAttempt.key_eq_iff.mp hkey).2.2.2]
    exact hv.phases a ha
  · simp [hphase.1]
  · simp [hphase.1]

theorem RunMove.started (h : RunMove cfg v cause v') (hv : v.Sound) :
    ∀ x ∈ v'.attempts.rows, v'.Begun x.stepId := by
  intro x hx
  rcases h.attempt_origin hv.keyed hx with ⟨a, ha, hkey⟩ | ⟨_, _, hphase | hphase⟩
  · rw [← (StepAttempt.key_eq_iff.mp hkey).2.1]
    exact h.begun_kept (hv.started a ha)
  · exact RunRecord.begun_of_stateOf hphase.2.2.2 (by simp)
  · exact RunRecord.begun_of_stateOf hphase.2.2.2 (by simp)

/-- A run is pending until its first attempt. -/
theorem RunMove.fresh (h : RunMove cfg v cause v') (hv : v.Sound)
    (hpending : v'.run.state = .pending) : v'.attempts.rows = [] := by
  have hbefore : v.run.state = .pending := by
    rcases h.run_state with hsame | htransition
    · rwa [← hsame]
    · exact absurd (hpending ▸ htransition) (RunState.pending_notMem_transitions _)
  refine List.eq_nil_iff_forall_not_mem.mpr fun x hx => ?_
  rcases h.attempt_origin hv.keyed hx with ⟨a, ha, _⟩ | ⟨_, _, hphase | hphase⟩
  · simp [hv.fresh hbefore] at ha
  · simp [hphase.2.2.1] at hpending
  · simp [hphase.2.2.1] at hpending

theorem RunMove.compensations (h : RunMove cfg v cause v') (hv : v.Sound) :
    ∀ x ∈ v'.attempts.rows, x.phase = .compensation → v'.stateOf x.stepId = some .succeeded := by
  intro x hx hphase
  rcases h.attempt_origin hv.keyed hx with ⟨a, ha, hkey⟩ | ⟨_, _, hforward | hstarted⟩
  · obtain ⟨_, hstepId, _, hkind⟩ := StepAttempt.key_eq_iff.mp hkey
    rw [← hstepId]
    exact h.stateOf_succeeded (hv.compensations a ha (hkind.trans hphase))
  · simp [hforward.1] at hphase
  · exact hstarted.2.2.2

/-- A step with a completed forward attempt has succeeded: it changes no more, so no
later result is written over the attempt. -/
theorem RunMove.effects (h : RunMove cfg v cause v') (hv : v.Sound) :
    ∀ x ∈ v'.attempts.rows, x.phase = .forward → x.Completed →
      v'.stateOf x.stepId = some .succeeded := by
  intro x hx hphase hcompleted
  -- a succeeded step stays so
  have old (hx : x ∈ v.attempts.rows) : v'.stateOf x.stepId = some .succeeded :=
    h.stateOf_succeeded (hv.effects x hx hphase hcompleted)
  cases h with
  | forwardStarted _ _ _ _ hnext =>
      rcases KeyedTable.mem_put.mp hx with rfl | ⟨hx, _⟩
      · simp [StepAttempt.Completed, hnext.status] at hcompleted
      · exact old hx
  | compensationStarted _ _ _ _ hnext =>
      rcases KeyedTable.mem_put.mp hx with rfl | ⟨hx, _⟩
      · simp [hnext.phase] at hphase
      · exact old hx
  | forwardFinished _ _ _ _ _ hattempt _ hresult =>
      rcases KeyedTable.mem_put.mp hx with rfl | ⟨hx, _⟩
      -- the attempt that succeeds takes its step along
      · obtain ⟨_, hid, _⟩ := RunRecord.findAttempt_eq_some hattempt
        rcases forwardResult_spec hresult with ⟨_, rfl, _⟩ | ⟨hfailed, _⟩
        · simp [RunRecord.stateOf, RunRecord.finishedStep, StepAttempt.completedWith, hid]
        · simp [StepAttempt.Completed, StepAttempt.completedWith, hfailed] at hcompleted
      · exact old hx
  | compensationFinished _ _ hattempt hcompensation =>
      rcases KeyedTable.mem_put.mp hx with rfl | ⟨hx, _⟩
      · simp [StepAttempt.completedWith, hcompensation] at hphase
      · exact old hx
  | recoveredApplied _ _ hunresolved _ _ _ hchanged =>
      rcases KeyedTable.mem_put.mp hx with rfl | ⟨hx, _⟩
      · obtain ⟨_, hid⟩ := RunRecord.mem_stepAttempts.mp (unresolvedAmong_spec hunresolved).1
        rcases hchanged with ⟨_, _, rfl⟩ | ⟨hnot, _⟩
        · simp [RunRecord.stateOf, StepAttempt.applied, hid]
        · exact absurd hphase hnot
      · exact old hx
  | recoveredNotApplied =>
      rcases KeyedTable.mem_put.mp hx with rfl | ⟨hx, _⟩
      · simp [StepAttempt.Completed, StepAttempt.closed] at hcompleted
      · exact old hx
  | recoveredManual =>
      rcases KeyedTable.mem_put.mp hx with rfl | ⟨hx, _⟩
      · simp [StepAttempt.Completed, StepAttempt.closed] at hcompleted
      · exact old hx
  | _ => exact old hx

/-! ### Requests in flight -/

theorem RunView.Submission.mem {v : RunView} {attempt : StepAttempt}
    {futures : List (ℕ × ToolExecutionContext)} (h : v.Submission attempt futures)
    {future : ℕ × ToolExecutionContext} (hfuture : future ∈ futures) :
    future ∈ v.inFlight ∨ future.2.IsFor attempt := by
  cases h with
  | notSubmitted => exact Or.inl hfuture
  | submitted _ _ hstepId hattemptNo hphase =>
      rcases List.mem_append.mp hfuture with hfuture | hfuture
      · exact Or.inl hfuture
      · obtain rfl := List.mem_singleton.mp hfuture
        exact Or.inr ⟨hstepId, hattemptNo, hphase⟩

theorem RunView.Outstanding.sublist {v : RunView} {outcome : ExecutionOutcome}
    {phase : ToolExecutionPhase} {futures : List (ℕ × ToolExecutionContext)}
    (h : v.Outstanding outcome phase futures) : futures.Sublist v.inFlight := by
  cases h with
  | inFlight => exact List.filter_sublist
  | notSubmitted => exact List.Sublist.refl _

theorem ToolExecutionContext.IsFor.of_key_eq {context : ToolExecutionContext} {a b : StepAttempt}
    (h : context.IsFor a) (hkey : b.key = a.key) : context.IsFor b := by
  obtain ⟨_, hstepId, hattemptNo, hphase⟩ := StepAttempt.key_eq_iff.mp hkey
  exact ⟨h.stepId.trans hstepId.symm, h.attemptNo.trans hattemptNo.symm,
    h.phase.trans hphase.symm⟩

theorem RunMove.inFlight_origin (h : RunMove cfg v cause v') {future : ℕ × ToolExecutionContext}
    (hfuture : future ∈ v'.inFlight) :
    future ∈ v.inFlight ∨ ∃ a ∈ v'.attempts.rows, future.2.IsFor a := by
  cases h with
  | forget => simp at hfuture
  | forwardStarted _ _ _ _ _ _ hfutures =>
      exact (hfutures.mem hfuture).imp_right fun hnew =>
        ⟨_, KeyedTable.mem_put.mpr (Or.inl rfl), hnew⟩
  | compensationStarted _ _ _ _ _ hfutures =>
      exact (hfutures.mem hfuture).imp_right fun hnew =>
        ⟨_, KeyedTable.mem_put.mpr (Or.inl rfl), hnew⟩
  | forwardFinished _ hsource => exact Or.inl (hsource.sublist.subset hfuture)
  | compensationFinished _ hsource => exact Or.inl (hsource.sublist.subset hfuture)
  | _ => exact Or.inl hfuture

/-- A request in flight has an attempt. -/
theorem RunMove.inFlight (h : RunMove cfg v cause v') (hv : v.Sound) :
    ∀ future ∈ v'.inFlight, ∃ a ∈ v'.attempts.rows, future.2.IsFor a := by
  intro future hfuture
  rcases h.inFlight_origin hfuture with hold | hnew
  · obtain ⟨a, ha, hfor⟩ := hv.inFlight future hold
    obtain ⟨x, hx, hkey⟩ := h.attempt_kept ha
    exact ⟨x, hx, hfor.of_key_eq hkey⟩
  · exact hnew

theorem RunMove.futures (h : RunMove cfg v cause v') (hv : v.Sound) :
    (v'.inFlight.map Prod.fst).Nodup := by
  have submitted {attempt : StepAttempt} {futures : List (ℕ × ToolExecutionContext)}
      (hfutures : v.Submission attempt futures) : (futures.map Prod.fst).Nodup := by
    cases hfutures with
    | notSubmitted => exact hv.futures
    | submitted hfresh =>
        rw [List.map_append, List.nodup_append]
        refine ⟨hv.futures, by simp, ?_⟩
        rintro _ hid _ hnew rfl
        obtain ⟨future, hfuture, hid⟩ := List.mem_map.mp hid
        exact hfresh future hfuture (hid.trans (by simpa using hnew))
  cases h with
  | forget => simp
  | forwardStarted _ _ _ _ _ _ hfutures => exact submitted hfutures
  | compensationStarted _ _ _ _ _ hfutures => exact submitted hfutures
  | forwardFinished _ hsource => exact hv.futures.sublist (hsource.sublist.map _)
  | compensationFinished _ hsource => exact hv.futures.sublist (hsource.sublist.map _)
  | _ => exact hv.futures

/-- The attempt that an outcome is written into has the phase of its request, unless
a forward outcome finds a compensation. -/
theorem RunView.Outstanding.exists_attempt {v : RunView} (hv : v.Sound)
    {outcome : ExecutionOutcome} {phase : ToolExecutionPhase}
    {futures : List (ℕ × ToolExecutionContext)} (h : v.Outstanding outcome phase futures) :
    ∃ a ∈ v.attempts.rows, a.stepId = outcome.stepId ∧ a.attemptNo = outcome.attemptNo ∧
      a.phase = phase := by
  cases h with
  | inFlight hmem hstepId hattemptNo hphase =>
      obtain ⟨a, ha, hfor⟩ := hv.inFlight _ hmem
      exact ⟨a, ha, hfor.stepId.symm.trans hstepId, hfor.attemptNo.symm.trans hattemptNo,
        hfor.phase.symm.trans hphase⟩
  | notSubmitted hmem _ hstepId hattemptNo hphase => exact ⟨_, hmem, hstepId, hattemptNo, hphase⟩

/-- Once a compensation has been started, no outcome is a forward one. -/
theorem RunView.Outstanding.compensation_of_undoing {v : RunView} (hv : v.Sound)
    (hundoing : v.Undoing) {outcome : ExecutionOutcome} {phase : ToolExecutionPhase}
    {futures : List (ℕ × ToolExecutionContext)} (h : v.Outstanding outcome phase futures)
    {a : StepAttempt} (ha : v.findAttempt outcome.stepId outcome.attemptNo = some a) :
    a.phase = .compensation := by
  obtain ⟨b, hb, hstepId, hattemptNo, hphase⟩ := h.exists_attempt hv
  have hcompensation : b.phase = .compensation := by
    rw [hphase]
    cases h with
    | inFlight hmem _ _ hkind => rw [← hkind]; exact hundoing.inFlight _ hmem
    | notSubmitted hmem hrunning _ _ hkind =>
        cases hcase : phase with
        | compensation => rfl
        | forward => exact absurd hrunning (hundoing.attempts _ hmem (hkind.trans hcase))
        | probe => exact absurd (hkind.trans hcase) (hv.phases _ hmem)
  rw [RunRecord.findAttempt_compensation hv.keyed ha hb hstepId hattemptNo hcompensation]
  exact hcompensation

/-! ### Compensation -/

/-- Changing one row keeps the steps out of the states that recovery waits for. -/
theorem RunRecord.update_idle {v : RunRecord}
    (hsteps : ∀ id, v.stateOf id ≠ some .running ∧ v.stateOf id ≠ some .resultUnknown)
    {stepId : String} {row : StepRun} (hrunning : row.state ≠ .running)
    (hunknown : row.state ≠ .resultUnknown) (id : String) :
    ({ v with steps := Function.update v.steps stepId (some row) } : RunRecord).stateOf id ≠
        some .running ∧
      ({ v with steps := Function.update v.steps stepId (some row) } : RunRecord).stateOf id ≠
        some .resultUnknown := by
  by_cases hid : id = stepId
  · simp [RunRecord.stateOf, hid, hrunning, hunknown]
  · simpa [RunRecord.stateOf, hid] using hsteps id

/-- A decision of recovery leaves the step neither running nor unknown. -/
theorem RunRecord.update_decided {v : RunRecord}
    (hsteps : ∀ id, v.stateOf id ≠ some .running ∧ v.stateOf id ≠ some .resultUnknown)
    {stepId : String} {row changed : StepRun} {target : StepState} {phase : ToolExecutionPhase}
    (hrow : v.steps stepId = some row) (hrunning : target ≠ .running)
    (hunknown : target ≠ .resultUnknown)
    (hchanged : (phase = .forward ∧ target ∈ stepTransitions row.state ∧
        changed = row.moved target) ∨ (phase ≠ .forward ∧ changed = row)) (id : String) :
    ({ v with steps := Function.update v.steps stepId (some changed) } : RunRecord).stateOf id ≠
        some .running ∧
      ({ v with steps := Function.update v.steps stepId (some changed) } : RunRecord).stateOf id ≠
        some .resultUnknown := by
  rcases hchanged with ⟨_, _, rfl⟩ | ⟨_, rfl⟩
  · exact update_idle hsteps hrunning hunknown id
  · rw [← hrow, Function.update_eq_self]
    exact hsteps id

theorem RunMove.undoing_kept (h : RunMove cfg v cause v') (hv : v.Sound)
    (hundoing : v.Undoing) : v'.Undoing := by
  -- the run can only go on to an end of its compensation
  have hstate : v'.run.state ∈ [.compensating, .compensated, .manualIntervention] := by
    have hbefore := hundoing.state
    rcases h.run_state with hsame | htransition
    · rwa [hsame]
    · revert hbefore htransition
      cases v.run.state <;> simp [runTransitions]
      rintro (h | h) <;> simp [h]
  -- a forward attempt in the table still does not run
  have put {a x : StepAttempt} (ha : a.phase = .forward → a.status ≠ .running)
      (hx : x ∈ (v.attempts.put a).rows) (hphase : x.phase = .forward) : x.status ≠ .running := by
    rcases KeyedTable.mem_put.mp hx with rfl | ⟨hx, _⟩
    · exact ha hphase
    · exact hundoing.attempts x hx hphase
  cases h with
  | forget => exact ⟨hstate, hundoing.steps, hundoing.attempts, by simp⟩
  | retriesDue _ hsteps =>
      refine ⟨hstate, fun id => ?_, hundoing.attempts, hundoing.inFlight⟩
      rcases hsteps id with hsame | ⟨_, _, _, _, _, _, _, _, hready⟩
      · simpa [RunRecord.stateOf, hsame] using hundoing.steps id
      · simp [RunRecord.stateOf, hready]
  | dependenciesReady _ hsteps =>
      refine ⟨hstate, fun id => ?_, hundoing.attempts, hundoing.inFlight⟩
      rcases hsteps id with hsame | ⟨_, _, _, _, _, _, _, hready⟩
      · simpa [RunRecord.stateOf, hsame] using hundoing.steps id
      · simp [RunRecord.stateOf, hready]
  | forwardStarted _ hrun =>
      -- no forward attempt starts while the run compensates
      have hbefore := hundoing.state
      rcases hrun with ⟨hrun, _⟩ | ⟨hrun, _⟩ <;> simp [hrun] at hbefore
  | compensationStarted _ _ _ _ hnext hfutures =>
      refine ⟨hstate, hundoing.steps, fun x => put (by simp [hnext.phase]), fun future hfuture => ?_⟩
      rcases hfutures.mem hfuture with hold | hnew
      · exact hundoing.inFlight future hold
      · exact hnew.phase.trans hnext.phase
  | forwardFinished _ hsource _ _ _ hattempt hphase =>
      -- every outcome that is left is a compensation's
      exact absurd (hsource.compensation_of_undoing hv hundoing hattempt) hphase
  | compensationFinished _ hsource _ hphase =>
      exact ⟨hstate, hundoing.steps,
        fun x => put fun hforward => by simp [StepAttempt.completedWith, hphase] at hforward,
        fun future hfuture => hundoing.inFlight future (hsource.sublist.subset hfuture)⟩
  | recoveredApplied _ hrow _ _ _ _ hchanged =>
      exact ⟨hstate, RunRecord.update_decided hundoing.steps hrow (by simp) (by simp) hchanged,
        fun x => put fun _ => by simp [StepAttempt.applied], hundoing.inFlight⟩
  | recoveredNotApplied _ hrow _ _ _ hchanged =>
      exact ⟨hstate, RunRecord.update_decided hundoing.steps hrow (by simp) (by simp) hchanged,
        fun x => put fun _ => by simp [StepAttempt.closed], hundoing.inFlight⟩
  | recoveredManual _ hrow _ _ _ _ hchanged =>
      exact ⟨hstate, RunRecord.update_decided hundoing.steps hrow (by simp) (by simp) hchanged,
        fun x => put fun _ => by simp [StepAttempt.closed], hundoing.inFlight⟩
  | _ => exact ⟨hstate, hundoing.steps, hundoing.attempts, hundoing.inFlight⟩

/-- A quiet run has no step under any id that is running or unknown. -/
theorem RunView.Sound.idle (hv : v.Sound) (hquiet : v.Quiet) (id : String) :
    v.stateOf id ≠ some .running ∧ v.stateOf id ≠ some .resultUnknown := by
  by_cases hid : v.Begun id
  · obtain ⟨step, hstep, rfl, _⟩ := hv.begun id hid
    exact hquiet.steps step hstep
  · exact ⟨fun h => hid (RunRecord.begun_of_stateOf h (by simp)),
      fun h => hid (RunRecord.begun_of_stateOf h (by simp))⟩

theorem RunMove.undoing (h : RunMove cfg v cause v') (hv : v.Sound)
    (hcompensation : ∃ x ∈ v'.attempts.rows, x.phase = .compensation) : v'.Undoing := by
  obtain ⟨x, hx, hphase⟩ := hcompensation
  by_cases hbefore : ∃ a ∈ v.attempts.rows, a.phase = .compensation
  · exact h.undoing_kept hv (hv.undoing hbefore)
  rcases h.attempt_origin hv.keyed hx with ⟨a, ha, hkey⟩ | ⟨rfl, _⟩
  · exact absurd ⟨a, ha, (StepAttempt.key_eq_iff.mp hkey).2.2.2.trans hphase⟩ hbefore
  · cases h with
    | forwardStarted _ _ _ _ hnext => simp [hnext.phase] at hphase
    | compensationStarted hstate hquiet hdrained _ hnext hfutures =>
        refine ⟨by simp [hstate], hv.idle hquiet, fun y hy hforward => ?_,
          fun future hfuture => ?_⟩
        · rcases KeyedTable.mem_put.mp hy with rfl | ⟨hy, _⟩
          · simp [hnext.phase] at hforward
          · exact (hquiet.attempts y hy).1
        · rcases hfutures.mem hfuture with hold | hnew
          · simp [hdrained] at hold
          · exact hnew.phase.trans hnext.phase

/-! ### Waiting and finished runs -/

/-- Steps that only become ready leave a quiet run quiet. -/
theorem RunRecord.Quiet.of_ready {v w : RunRecord} (hquiet : v.Quiet)
    (hdefinition : w.definition = v.definition) (hattempts : w.attempts = v.attempts)
    (hsteps : ∀ id, w.steps id = v.steps id ∨ ∃ row : StepRun, w.steps id = some (row.moved .ready)) :
    w.Quiet where
  steps step hstep := by
    rcases hsteps step.id with hsame | ⟨row, hready⟩
    · simpa [stateOf, hsame] using hquiet.steps step (hdefinition ▸ hstep)
    · simp [stateOf, hready]
  attempts := hattempts ▸ hquiet.attempts

/-- Steps that only become ready do not complete a run. -/
theorem RunRecord.AllSucceeded.of_ready {v : RunRecord} {steps : String → Option StepRun}
    (hsteps : ∀ id, steps id = v.steps id ∨ ∃ row : StepRun, steps id = some (row.moved .ready))
    (hall : ({ v with steps := steps } : RunRecord).AllSucceeded) : v.AllSucceeded := by
  intro step hstep
  have hstate : (steps step.id).map StepRun.state = some .succeeded := hall step hstep
  rcases hsteps step.id with hsame | ⟨row, hready⟩
  · rwa [hsame] at hstate
  · simp [hready] at hstate

theorem RunRecord.Quiet.unresolved_eq_none {v : RunRecord} (hquiet : v.Quiet)
    {step : StepDefinition} {row : StepRun} (hstep : step ∈ v.definition.steps)
    (hrow : v.steps step.id = some row) :
    unresolvedAmong row (v.stepAttempts step.id) = none := by
  cases hunresolved : unresolvedAmong row (v.stepAttempts step.id) with
  | none => rfl
  | some a =>
      obtain ⟨ha, ⟨hrunning, _⟩ | ⟨_, hunknown, _⟩⟩ := unresolvedAmong_spec hunresolved
      · exact absurd hrunning (hquiet.attempts a (RunRecord.mem_stepAttempts.mp ha).1).1
      · exact absurd (RunRecord.stateOf_eq_some_iff.mpr ⟨row, hrow, hunknown⟩)
          (hquiet.steps step hstep).2

theorem RunView.Outstanding.not_quiet {v : RunView} {outcome : ExecutionOutcome}
    {phase : ToolExecutionPhase} {futures : List (ℕ × ToolExecutionContext)}
    (h : v.Outstanding outcome phase futures) (hdrained : v.inFlight = []) : ¬ v.Quiet := by
  intro hquiet
  cases h with
  | inFlight hmem => simp [hdrained] at hmem
  | notSubmitted hmem hrunning => exact (hquiet.attempts _ hmem).1 hrunning

/-- A waiting run has nothing in flight, nothing to recover and work left to do. -/
theorem RunMove.waiting (h : RunMove cfg v cause v') (hv : v.Sound)
    (hstate : v'.run.state = .waitingApproval) :
    v'.Quiet ∧ v'.inFlight = [] ∧ ¬ v'.AllSucceeded := by
  cases h with
  | tick => exact hv.waiting hstate
  | forget =>
      obtain ⟨hquiet, _, hopen⟩ := hv.waiting hstate
      exact ⟨hquiet, rfl, hopen⟩
  | retriesDue _ hsteps =>
      obtain ⟨hquiet, hdrained, hopen⟩ := hv.waiting hstate
      -- a promoted step disturbs neither part
      have hready (id : String) := (hsteps id).imp_right
        fun ⟨row, _, _, _, _, _, _, _, h⟩ => Exists.intro row h
      exact ⟨hquiet.of_ready rfl rfl hready, hdrained, fun hall => hopen (hall.of_ready hready)⟩
  | dependenciesReady _ hsteps =>
      obtain ⟨hquiet, hdrained, hopen⟩ := hv.waiting hstate
      have hready (id : String) := (hsteps id).imp_right
        fun ⟨_, _, row, _, _, _, _, h⟩ => Exists.intro row h
      exact ⟨hquiet.of_ready rfl rfl hready, hdrained, fun hall => hopen (hall.of_ready hready)⟩
  -- the barrier has just found the run quiet, with a step that is ready
  | barrier hstep hready hquiet hdrained =>
      have hopen : ¬ v.AllSucceeded := fun hall => by simpa [hready] using hall _ hstep
      exact ⟨⟨hquiet.steps, hquiet.attempts⟩, hdrained, hopen⟩
  | forwardStarted _ hrun =>
      rcases hrun with ⟨_, rfl⟩ | ⟨hrun, rfl⟩
      · simp at hstate
      · simp [hrun] at hstate
  | compensationStarted hrun => simp [hrun] at hstate
  | forwardFinished _ hsource _ _ _ _ _ _ _ hsettles =>
      cases hsettles with
      | unaffected =>
          -- an outcome would have to come from a future that is not there
          obtain ⟨hquiet, hdrained, _⟩ := hv.waiting hstate
          exact absurd hquiet (hsource.not_quiet hdrained)
      | completed | failed | compensating => simp at hstate
  | compensationFinished _ hsource _ _ hsettles =>
      cases hsettles with
      | remaining =>
          obtain ⟨hquiet, hdrained, _⟩ := hv.waiting hstate
          exact absurd hquiet (hsource.not_quiet hdrained)
      | completed | failed => simp at hstate
  | compensated => simp at hstate
  | decided _ _ _ htarget =>
      obtain rfl : _ = RunState.waitingApproval := hstate
      simp [runTransitions] at htarget
  | cancelled => simp at hstate
  | recoveredApplied hstep hrow hunresolved _ _ _ _ hsettles =>
      cases hsettles with
      -- nothing is unresolved in a quiet run
      | unaffected =>
          simp [(hv.waiting hstate).1.unresolved_eq_none hstep hrow] at hunresolved
      | compensated | compensatedAtOnce | completed => simp at hstate
  | recoveredNotApplied hstep hrow hunresolved =>
      simp [(hv.waiting hstate).1.unresolved_eq_none hstep hrow] at hunresolved
  | recoveredManual _ _ _ _ _ hrun =>
      rcases hrun with rfl | rfl <;> simp at hstate

/-- Runs in which a compensation has been attempted are not running. -/
theorem RunView.Sound.compensation_not_running (hv : v.Sound) {a : StepAttempt}
    (ha : a ∈ v.attempts.rows) (hphase : a.phase ≠ .forward) : v.run.state ≠ .running := by
  intro hrunning
  have hstate := (hv.undoing ⟨a, ha, by
    cases hcase : a.phase with
    | forward => exact absurd hcase hphase
    | probe => exact absurd hcase (hv.phases a ha)
    | compensation => rfl⟩).state
  simp [hrunning] at hstate

/-- A running run has a step that has not succeeded. -/
theorem RunMove.running (h : RunMove cfg v cause v') (hv : v.Sound)
    (hstate : v'.run.state = .running) : ¬ v'.AllSucceeded := by
  cases h with
  | tick => exact hv.running hstate
  | forget => exact hv.running hstate
  | retriesDue _ hsteps =>
      exact fun hall => hv.running hstate (hall.of_ready fun id =>
        (hsteps id).imp_right fun ⟨row, _, _, _, _, _, _, _, h⟩ => ⟨row, h⟩)
  | dependenciesReady _ hsteps =>
      exact fun hall => hv.running hstate (hall.of_ready fun id =>
        (hsteps id).imp_right fun ⟨_, _, row, _, _, _, _, h⟩ => ⟨row, h⟩)
  | barrier _ _ _ _ hrun =>
      rcases hrun with ⟨hrun, rfl⟩ | ⟨_, rfl⟩
      · simp [hrun] at hstate
      · simp at hstate
  -- the step that was started is not succeeded
  | forwardStarted hstep _ _ _ _ =>
      exact fun hall => by simpa [RunRecord.stateOf] using hall _ hstep
  | compensationStarted hrun => simp [hrun] at hstate
  | forwardFinished _ _ hstep hstepId _ _ _ _ _ hsettles =>
      intro hall
      cases hsettles with
      -- the last step to succeed would have ended the run
      | unaffected hsucceeded =>
          refine hsucceeded hstate ?_ fun other hother _ => hall other hother
          have hself := hall _ hstep
          simp only [RunRecord.stateOf, hstepId, Function.update_self, Option.map_some,
            Option.some.injEq] at hself
          unfold RunRecord.finishedStep at hself
          split at hself
          case isTrue h => exact h
          case isFalse h => simpa using hself
      | completed | failed | compensating => simp at hstate
  | compensationFinished _ _ hattempt hphase hsettles =>
      cases hsettles with
      | remaining =>
          exact absurd hstate (hv.compensation_not_running
            (RunRecord.findAttempt_eq_some hattempt).1 (by simp [hphase]))
      | completed | failed => simp at hstate
  | compensated => simp at hstate
  -- a waiting run has a step to go
  | decided _ _ hwaiting => exact (hv.waiting hwaiting).2.2
  | cancelled => simp at hstate
  | recoveredApplied _ _ _ _ _ _ _ hsettles =>
      cases hsettles with
      | unaffected _ _ hothers =>
          exact fun hall => hothers hstate fun other hother _ => hall other hother
      | compensated | compensatedAtOnce | completed => simp at hstate
  | recoveredNotApplied hstep hrow _ _ _ hchanged =>
      rcases hchanged with ⟨_, _, rfl⟩ | ⟨_, rfl⟩
      · exact fun hall => by simpa [RunRecord.stateOf] using hall _ hstep
      · rw [← hrow, Function.update_eq_self]
        exact hv.running hstate
  | recoveredManual _ _ _ _ _ hrun =>
      rcases hrun with rfl | rfl <;> simp at hstate

/-- A run that has succeeded has completed every step. -/
theorem RunMove.succeeded (h : RunMove cfg v cause v') (hv : v.Sound)
    (hstate : v'.run.state = .succeeded) : v'.AllSucceeded := by
  by_cases hbefore : v.run.state = .succeeded
  · intro step hstep
    exact h.stateOf_succeeded (hv.succeeded hbefore step (h.definition_eq ▸ hstep))
  cases h with
  | barrier _ _ _ _ hrun =>
      rcases hrun with ⟨_, rfl⟩ | ⟨_, rfl⟩
      · exact absurd hstate hbefore
      · simp at hstate
  | forwardStarted _ hrun =>
      rcases hrun with ⟨_, rfl⟩ | ⟨_, rfl⟩
      · simp at hstate
      · exact absurd hstate hbefore
  | @forwardFinished _ _ _ _ outcome _ _ _ _ _ _ _ _ _ _ _ _ _ _ _ _ hsettles =>
      cases hsettles with
      | unaffected => exact absurd hstate hbefore
      | completed _ hsucceeded hothers =>
          intro other hother
          -- the step that has just succeeded, and all the others
          by_cases hid : other.id = outcome.stepId
          · simp [RunRecord.stateOf, hid, RunRecord.finishedStep, hsucceeded]
          · exact hothers other hother hid
      | failed | compensating => simp at hstate
  | compensationFinished _ _ _ _ hsettles =>
      cases hsettles with
      | remaining => exact absurd hstate hbefore
      | completed | failed => simp at hstate
  | compensated => simp at hstate
  | decided _ _ _ htarget =>
      obtain rfl : _ = RunState.succeeded := hstate
      simp [runTransitions] at htarget
  | cancelled => simp at hstate
  | @recoveredApplied _ step _ _ _ _ _ _ _ _ _ _ _ hunresolved _ _ _ hchanged hsettles =>
      cases hsettles with
      | unaffected => exact absurd hstate hbefore
      | compensated | compensatedAtOnce => simp at hstate
      | completed hrunning hothers =>
          -- the same when the probe finds the effect of a forward attempt
          rcases hchanged with ⟨_, _, rfl⟩ | ⟨hphase, _⟩
          · intro other hother
            by_cases hid : other.id = step.id
            · simp [RunRecord.stateOf, hid]
            · exact hothers other hother hid
          · exact absurd hrunning (hv.compensation_not_running
              (RunRecord.mem_stepAttempts.mp (unresolvedAmong_spec hunresolved).1).1 hphase)
  | recoveredManual _ _ _ _ _ hrun =>
      rcases hrun with rfl | rfl <;> simp at hstate
  | _ => exact absurd hstate hbefore

theorem RunMove.sound (h : RunMove cfg v cause v') (hv : v.Sound) (hkeyed : v'.Keyed) :
    v'.Sound where
  keyed := hkeyed
  begun := h.begun hv
  phases := h.phases hv
  started := h.started hv
  fresh := h.fresh hv
  waiting := h.waiting hv
  running := h.running hv
  succeeded := h.succeeded hv
  effects := h.effects hv
  compensations := h.compensations hv
  undoing := h.undoing hv
  inFlight := h.inFlight hv
  futures := h.futures hv

end

/-- An unresolved attempt of a run without forward work is a compensation that runs. -/
theorem RunView.Undoing.unresolved {v : RunView} (hundoing : v.Undoing) (hv : v.Sound)
    {id : String} {row : StepRun} {a : StepAttempt} (hrow : v.steps id = some row)
    (h : unresolvedAmong row (v.stepAttempts id) = some a) :
    a ∈ v.attempts.rows ∧ a.status = .running ∧ a.phase = .compensation := by
  obtain ⟨hmem, ⟨hrunning, _⟩ | ⟨_, hunknown, _⟩⟩ := unresolvedAmong_spec h
  · have ha := (RunRecord.mem_stepAttempts.mp hmem).1
    refine ⟨ha, hrunning, ?_⟩
    cases hphase : a.phase with
    | forward => exact absurd hrunning (hundoing.attempts a ha hphase)
    | probe => exact absurd hphase (hv.phases a ha)
    | compensation => rfl
  · exact absurd (RunRecord.stateOf_eq_some_iff.mpr ⟨row, hrow, hunknown⟩) (hundoing.steps id).2

end ChangePilot
