import ChangePilot.System.Promotion

/-!
# Recording an outcome raises nothing

The unit of work that records an outcome looks up rows, moves a step and a run along
their tables and orders compensations.  Each of these is defined when every step of the
run has a row and the moves are in the tables.
-/

namespace ChangePilot

section

variable {base : MemoryStore} {staged : List Write} {v : RunRecord}

/-! ## Lookups -/

theorem anyStep_isOk {store : MemoryStore} {runId : String} {p : StepState → String → Bool}
    {steps : List StepDefinition} (h : ∀ step ∈ steps, (store.getStep runId step.id).isSome) :
    ∃ answer, anyStep store runId p steps = .ok answer := by
  induction steps with
  | nil => exact ⟨false, rfl⟩
  | cons step rest ih =>
      obtain ⟨hstep, hrest⟩ := List.forall_mem_cons.mp h
      obtain ⟨row, hrow⟩ := Option.isSome_iff_exists.mp hstep
      obtain ⟨answer, hanswer⟩ := ih hrest
      have hstate : stepStateOf store runId step.id = .ok row.state := by
        simp only [stepStateOf, hrow]
      unfold anyStep
      rw [Except.bind_of_eq_ok hstate]
      by_cases hp : p row.state step.id = true
      · exact ⟨true, if_pos hp⟩
      · exact ⟨answer, (if_neg hp).trans hanswer⟩

theorem allOthersSucceeded_isOk {store : MemoryStore} {runId : String}
    (hrecord : store.record runId = some v) (hstocked : v.Stocked) (stepId : String) :
    ∃ answer, allOthersSucceeded store runId stepId v.definition.steps = .ok answer := by
  have hrows : ∀ step ∈ v.definition.steps.filter fun step => step.id ≠ stepId,
      (store.getStep runId step.id).isSome := by
    intro step hstep
    rw [MemoryStore.getStep_of_record hrecord]
    exact hstocked step (List.mem_of_mem_filter hstep)
  obtain ⟨someOtherOpen, hany⟩ := anyStep_isOk hrows (p := fun state _ => state ≠ .succeeded)
  exact ⟨!someOtherOpen, by rw [allOthersSucceeded, Except.bind_of_eq_ok hany]; rfl⟩

theorem RunRecord.Stocked.pendingCompensations_isOk (hstocked : v.Stocked) (hkeyed : v.Keyed)
    (attempts : List StepAttempt) :
    ∃ pending, pendingCompensations v.definition v.stepRuns attempts = .ok pending := by
  obtain ⟨ordered, hordered⟩ := compensationOrder_isOk attempts (hstocked.idsMatch hkeyed)
  exact ⟨_, by rw [pendingCompensations, Except.bind_of_eq_ok hordered]; rfl⟩

theorem RunRecord.Stocked.update {w : RunRecord} {id : String} {row : StepRun}
    (hstocked : v.Stocked) (hdefinition : w.definition = v.definition)
    (hsteps : w.steps = Function.update v.steps id (some row)) : w.Stocked := by
  intro step hstep
  rw [hsteps]
  by_cases hsame : step.id = id
  · simp [hsame]
  · simpa [hsame] using hstocked step (hdefinition ▸ hstep)

theorem WorkflowDefinition.find_step (definition : WorkflowDefinition) {step : StepDefinition}
    (hstep : step ∈ definition.steps) {id : String} (hid : step.id = id) :
    (definition.steps.find? fun other => other.id = id) = some step := by
  cases hfind : definition.steps.find? fun other => other.id = id with
  | none => simpa [hid] using List.find?_eq_none.mp hfind step hstep
  | some other =>
      have hother : other.id = id := by simpa using List.find?_some hfind
      rw [definition.eq_of_id_eq (List.mem_of_find?_eq_some hfind) hstep (hother.trans hid.symm)]

/-! ## Writes -/

theorem returns_saveRun {run : WorkflowRun} {expected : ℕ} {Q : Unit → List Write → Prop}
    (hrevision : run.revision = expected + 1) (h : Q () (staged ++ [.saveRun run expected])) :
    Tx.Returns (UowM.saveRun run expected) Q base staged := by
  rw [UowM.saveRun, if_neg (not_not.mpr hrevision)]
  exact Tx.returns_stage h

theorem returns_saveAttempt {attempt : StepAttempt} {Q : Unit → List Write → Prop}
    (hthere : ((UowM.view base staged).attempts.get attempt.key).isSome)
    (h : Q () (staged ++ [.saveAttempt attempt])) :
    Tx.Returns (UowM.saveAttempt attempt) Q base staged := by
  obtain ⟨old, hold⟩ := Option.isSome_iff_exists.mp hthere
  exact Tx.returns_bind <| Tx.returns_read <| Tx.returns_bind <| Tx.returns_require hold <|
    Tx.returns_stage h

theorem isSome_attempts_get {store : MemoryStore} {runId : String}
    (hrecord : store.record runId = some v) {attempt : StepAttempt}
    (hattempt : attempt ∈ v.attempts.rows) : (store.attempts.get attempt.key).isSome := by
  have hkey : attempt.key = attemptKey runId attempt.stepId attempt.attemptNo attempt.phase := by
    rw [← MemoryStore.runId_of_mem_record hrecord hattempt]
    rfl
  rw [hkey, MemoryStore.attempts_get_of_record hrecord, ← hkey, KeyedTable.get_key hattempt]
  rfl

/-- The revisions that the rows of a run have in the store. -/
theorem MemoryStore.fits_saveRun {runId : String} (h : base.record runId = some v)
    {run : WorkflowRun} (hrunId : run.runId = v.run.runId) :
    base.Fits (.saveRun run v.run.revision) := by
  refine .saveRun ?_
  rw [hrunId, MemoryStore.runId_of_record h, MemoryStore.runs_get_of_record h]
  rfl

theorem MemoryStore.fits_saveStep {runId id : String} (h : base.record runId = some v)
    {row changed : StepRun} (hrow : v.steps id = some row) (hstepId : changed.stepId = row.stepId)
    (hrunId : changed.runId = row.runId) : base.Fits (.saveStep changed row.revision) := by
  obtain ⟨hid, hrowRun⟩ := (MemoryStore.keyed_of_record h).step hrow
  refine .saveStep ?_
  have hget : base.getStep runId id = some row := (MemoryStore.getStep_of_record h id).trans hrow
  rw [StepRun.key, hstepId, hrunId, hid, hrowRun, MemoryStore.runId_of_record h]
  exact congrArg (Option.map StepRun.revision) hget

/-- The run is written back with an event. -/
theorem MemoryStore.fits_saved {runId : String} (h : base.record runId = some v)
    (hfits : ∀ write ∈ staged, base.Fits write) {run : WorkflowRun}
    (hrunId : run.runId = v.run.runId) (event : AuditEvent) :
    ∀ write ∈ staged ++ [.saveRun run v.run.revision] ++ [.appendEvent event],
      base.Fits write := by
  simp only [List.append_assoc, List.mem_append, List.mem_cons, List.not_mem_nil, or_false]
  rintro write (hwrite | rfl | rfl)
  · exact hfits write hwrite
  · exact fits_saveRun h hrunId
  · exact .appendEvent _

theorem WorkflowRun.moves {run : WorkflowRun} {target : RunState} (occurredAt : Timestamp)
    (htransition : target ∈ runTransitions run.state) :
    run.transition target occurredAt =
      .ok (run.moved target, run.movedEvent target occurredAt) :=
  transition_eq_ok_iff.mpr ⟨htransition, rfl, rfl⟩

/-! ## The units of work -/

/-- The run is settled, whatever the outcome makes of it. -/
theorem settleRun_returns {w : RunRecord} {nextState : StepState} {outcome : ExecutionOutcome}
    {completedAt : Timestamp} (hbase : base.record outcome.runId = some v)
    (hrecord : (UowM.view base staged).record outcome.runId = some w) (hrun : w.run = v.run)
    (hstocked : w.Stocked) (hfits : ∀ write ∈ staged, base.Fits write) :
    Tx.Returns (settleRun w.run w.definition nextState outcome completedAt)
      (fun _ final => ∀ write ∈ final, base.Fits write) base staged := by
  rw [hrun]
  unfold settleRun
  -- the run ends when this was the last step to succeed
  by_cases hsucceeded : v.run.state = .running ∧ nextState = .succeeded
  · rw [if_pos hsucceeded]
    obtain ⟨all, hall⟩ := allOthersSucceeded_isOk hrecord hstocked outcome.stepId
    refine Tx.returns_bind <| Tx.returns_read <| Tx.returns_bind <| Tx.returns_lift hall ?_
    cases all with
    | false => exact Tx.returns_pure hfits
    | true =>
        have hmoves : v.run.transition .succeeded completedAt = _ :=
          v.run.moves completedAt (by simp [hsucceeded.1, runTransitions])
        exact Tx.returns_bind <| Tx.returns_lift hmoves <| Tx.returns_bind <|
          returns_saveRun rfl <|
            Tx.returns_stage (MemoryStore.fits_saved hbase hfits (by rfl) _)
  · rw [if_neg hsucceeded]
    -- or when it failed, with or without effects to undo
    by_cases hfailed : v.run.state = .running ∧ nextState = .failed
    · rw [if_pos hfailed]
      obtain ⟨effects, heffects⟩ := compensationOrder_isOk w.attempts.rows
        (hstocked.idsMatch (MemoryStore.keyed_of_record hrecord))
      refine Tx.returns_bind <| Tx.returns_read <| Tx.returns_bind <|
        Tx.returns_lift (a := effects) ?_ ?_
      · rw [MemoryStore.stepRuns_of_record hrecord, MemoryStore.listAttempts_of_record hrecord]
        exact heffects
      -- both targets can be reached from running
      · have htransition : (if effects.isEmpty then RunState.failed else .compensating) ∈
            runTransitions v.run.state := by
          rw [hfailed.1]
          split <;> simp [runTransitions]
        have hmoves := v.run.moves completedAt htransition
        refine Tx.returns_bind <| Tx.returns_lift hmoves <| Tx.returns_bind <|
          returns_saveRun rfl <| Tx.returns_stage ?_
        refine MemoryStore.fits_saved hbase hfits ?_ _
        rfl
    · rw [if_neg hfailed]
      exact Tx.returns_pure hfits

theorem persistCompensationOutcome_returns {cfg : Deployment} {row : StepRun}
    {attempt : StepAttempt} {outcome : ExecutionOutcome} {completedAt : Timestamp}
    {sensitivePaths : List (List String)} (hbase : base.record outcome.runId = some v)
    (hattempt : attempt ∈ v.attempts.rows) (hstocked : v.Stocked)
    (hstate : v.run.state = .compensating) :
    Tx.Returns (persistCompensationOutcome cfg v.run v.definition row attempt outcome completedAt
      sensitivePaths) (fun _ final => ∀ write ∈ final, base.Fits write) base [] := by
  have hrunId := MemoryStore.runId_of_mem_record hbase hattempt
  unfold persistCompensationOutcome
  generalize redact cfg.runtime sensitivePaths outcome.result = result
  have hturns : v.Turns [.saveAttempt (attempt.completedWith outcome completedAt none result),
      .appendEvent (completedEvent attempt row outcome completedAt result)]
      { v with
        attempts := v.attempts.put (attempt.completedWith outcome completedAt none result)
        events := v.events ++ [completedEvent attempt row outcome completedAt result] } :=
    ⟨by simp [hrunId, MemoryStore.runId_of_record hbase], rfl⟩
  have hrecord := hturns.record hbase
  have hthere := isSome_attempts_get hbase hattempt
  -- the attempt is stored, and events always fit
  have hrecorded : ∀ write ∈ [Write.saveAttempt
      (attempt.completedWith outcome completedAt none result),
      .appendEvent (completedEvent attempt row outcome completedAt result)], base.Fits write := by
    simp only [List.mem_cons, List.not_mem_nil, or_false]
    rintro write (rfl | rfl)
    · exact .saveAttempt _
    · exact .appendEvent _
  refine Tx.returns_bind <| returns_saveAttempt hthere <| Tx.returns_bind <| Tx.returns_stage ?_
  by_cases hsuccess : outcome.status ≠ .success
  · rw [if_pos hsuccess]
    have hmoves : v.run.transition .manualIntervention completedAt = _ :=
      v.run.moves completedAt (by simp [hstate, runTransitions])
    refine Tx.returns_bind <| Tx.returns_lift hmoves <| Tx.returns_bind <|
      returns_saveRun rfl <| Tx.returns_stage ?_
    refine MemoryStore.fits_saved hbase hrecorded ?_ _
    rfl
  -- the order of what is still to be compensated exists, for every step has a row
  · rw [if_neg hsuccess]
    obtain ⟨pending, hpending⟩ := RunRecord.Stocked.pendingCompensations_isOk hstocked
      (MemoryStore.keyed_of_record hbase)
      (v.attempts.put (attempt.completedWith outcome completedAt none result)).rows
    refine Tx.returns_bind <| Tx.returns_read <| Tx.returns_bind <|
      Tx.returns_lift (a := pending) ?_ ?_
    · rw [← MemoryStore.runId_of_record hbase] at hrecord
      exact (congrArg₂ _ (MemoryStore.stepRuns_of_record hrecord)
        (MemoryStore.listAttempts_of_record hrecord)).trans hpending
    · cases pending with
      | nil =>
          have hmoves : v.run.transition .compensated completedAt = _ :=
            v.run.moves completedAt (by simp [hstate, runTransitions])
          exact Tx.returns_bind <| Tx.returns_lift hmoves <| Tx.returns_bind <|
            returns_saveRun rfl <|
              Tx.returns_stage (MemoryStore.fits_saved hbase hrecorded (by rfl) _)
      | cons first rest => exact Tx.returns_pure hrecorded

theorem persistForwardOutcome_returns {cfg : Deployment} {step : StepDefinition} {row : StepRun}
    {attempt : StepAttempt} {outcome : ExecutionOutcome} {completedAt : Timestamp}
    {sensitivePaths : List (List String)} (hbase : base.record outcome.runId = some v)
    (hrow : v.steps outcome.stepId = some row) (hrunning : row.state = .running)
    (hattempt : attempt ∈ v.attempts.rows) (hstocked : v.Stocked)
    {nextState : StepState} {nextAttemptAt : Option Timestamp}
    (hresult : forwardResult step.retry outcome completedAt = .ok (nextState, nextAttemptAt)) :
    Tx.Returns (persistForwardOutcome cfg v.run v.definition step row attempt outcome completedAt
      sensitivePaths) (fun _ final => ∀ write ∈ final, base.Fits write) base [] := by
  have hkeyed := MemoryStore.keyed_of_record hbase
  obtain ⟨hid, hrowRun⟩ := hkeyed.step hrow
  have hrunId : attempt.runId = v.run.runId := hkeyed.attempt _ hattempt
  unfold persistForwardOutcome
  generalize redact cfg.runtime sensitivePaths outcome.result = result
  -- whatever the outcome, a running step can move there
  have hmoves : row.transition nextState completedAt =
      .ok (row.moved nextState, row.movedEvent nextState completedAt) := by
    refine StepRun.transition_eq_ok_iff.mpr ⟨?_, rfl, rfl⟩
    rcases forwardResult_spec hresult with ⟨_, rfl, _⟩ |
      ⟨_, ⟨_, _, rfl, _⟩ | ⟨_, rfl, _⟩ | ⟨_, rfl, _⟩⟩ <;> simp [hrunning, stepTransitions]
  refine Tx.returns_bind <| Tx.returns_lift hresult <| Tx.returns_bind <| Tx.returns_lift hmoves <|
    Tx.returns_bind <| Tx.returns_read ?_
  rw [Tx.view_nil, MemoryStore.stepRuns_of_record hbase]
  generalize hfinished : v.finishedStep row nextState attempt.idempotencyKey = finished
  have hfinishedId : finished.stepId = row.stepId ∧ finished.runId = row.runId ∧
      finished.revision = row.revision + 1 := by
    rw [← hfinished, RunRecord.finishedStep]
    split <;> exact ⟨rfl, rfl, rfl⟩
  have hturns : v.Turns [.saveStep finished row.revision,
      .saveAttempt (attempt.completedWith outcome completedAt nextAttemptAt result),
      .appendEvent (row.movedEvent nextState completedAt),
      .appendEvent (completedEvent attempt finished outcome completedAt result)]
      { v with
        steps := Function.update v.steps outcome.stepId (some finished)
        attempts := v.attempts.put
          (attempt.completedWith outcome completedAt nextAttemptAt result)
        events := v.events ++ [row.movedEvent nextState completedAt,
          completedEvent attempt finished outcome completedAt result] } :=
    ⟨by simp [hrunId, hrowRun, hfinishedId], by simp [hfinishedId, hid]⟩
  have hsettles := @settleRun_returns base _ v _ nextState outcome completedAt hbase
    (hturns.record hbase) rfl (hstocked.update rfl rfl)
  have hthere := isSome_attempts_get hbase hattempt
  rw [show (if nextState = .succeeded then
      { row.moved nextState with
        completionSequence := some (nextCompletionSequence v.stepRuns)
        logicalIdempotencyKey := some attempt.idempotencyKey }
    else row.moved nextState) = finished from hfinished]
  -- the four writes are staged, and `settleRun` does the rest
  refine Tx.returns_bind <| returns_saveStep hfinishedId.2.2 <| Tx.returns_bind <|
    returns_saveAttempt hthere <| Tx.returns_bind <| Tx.returns_stage <| Tx.returns_bind <|
    Tx.returns_stage <| hsettles ?_
  simp only [List.mem_cons, List.not_mem_nil, or_false]
  rintro write (rfl | rfl | rfl | rfl)
  · exact MemoryStore.fits_saveStep hbase hrow hfinishedId.1 hfinishedId.2.1
  · exact .saveAttempt _
  · exact .appendEvent _
  · exact .appendEvent _

/-- An outcome is recorded if the step or the run can make its move, and the next attempt,
if there is one, can be scheduled. -/
theorem persistOutcome_returns {cfg : Deployment} {outcome : ExecutionOutcome}
    {completedAt : Timestamp} {sensitivePaths : List (List String)} {step : StepDefinition}
    {attempt : StepAttempt} (hbase : base.record outcome.runId = some v) (hstocked : v.Stocked)
    (hstep : step ∈ v.definition.steps) (hid : step.id = outcome.stepId)
    (hattempt : v.findAttempt outcome.stepId outcome.attemptNo = some attempt)
    (hcompensation : attempt.phase = .compensation → v.run.state = .compensating)
    (hforward : attempt.phase ≠ .compensation → v.stateOf outcome.stepId = some .running ∧
      ∃ next, forwardResult step.retry outcome completedAt = .ok next) :
    Tx.Returns (persistOutcome cfg outcome completedAt sensitivePaths)
      (fun exit final => exit.Committed ∧ ∀ write ∈ final, base.Fits write) base [] := by
  have hmem := (RunRecord.findAttempt_eq_some hattempt).1
  obtain ⟨row, hrow⟩ := Option.isSome_iff_exists.mp (hstocked step hstep)
  rw [hid] at hrow
  unfold persistOutcome
  refine Tx.returns_bind <| Tx.returns_read <| Tx.returns_bind <|
    Tx.returns_require (MemoryStore.runs_get_of_record hbase) <| Tx.returns_bind <|
    Tx.returns_read <| Tx.returns_bind <|
    Tx.returns_require (MemoryStore.definitionOf_of_record hbase) <| Tx.returns_bind <|
    Tx.returns_require (v.definition.find_step hstep hid) <| Tx.returns_bind <| Tx.returns_read <|
    Tx.returns_bind <| Tx.returns_require ((MemoryStore.getStep_of_record hbase _).trans hrow) <|
    Tx.returns_bind <| Tx.returns_read <| Tx.returns_bind <| Tx.returns_require (a := attempt) ?_ ?_
  · rw [Tx.view_nil, MemoryStore.listStepAttempts_of_record hbase]
    exact hattempt
  -- the two ways on meet the guards that the hypotheses are about
  by_cases hphase : attempt.phase = .compensation
  · rw [if_pos hphase]
    exact Tx.returns_bind <| (persistCompensationOutcome_returns hbase hmem hstocked
      (hcompensation hphase)).mono fun _ _ hfits => Tx.returns_pure ⟨trivial, hfits⟩
  · rw [if_neg hphase]
    obtain ⟨hrunning, next, hresult⟩ := hforward hphase
    obtain ⟨other, hother, hstate⟩ := RunRecord.stateOf_eq_some_iff.mp hrunning
    obtain rfl : row = other := Option.some.inj (hrow.symm.trans hother)
    exact Tx.returns_bind <| (persistForwardOutcome_returns hbase hrow hstate hmem hstocked
      hresult).mono fun _ _ hfits => Tx.returns_pure ⟨trivial, hfits⟩

end

end ChangePilot
