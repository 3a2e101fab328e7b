import ChangePilot.System.AuditTrail

/-!
# What each unit of work appends to the log

Each unit of work appends the events of the moves that it makes, in the order in which it
makes them.

`RunRecord.Tells` follows a unit from one call to the next: the events appended so far lead
from the states at its beginning to those that the writes so far have made.  The calls that
save a row and append its event are taken together (`RunRecord.Tells.stepMoved`), and a loop
has a lemma by induction on its list.
-/

namespace ChangePilot

section

variable {base : MemoryStore} {v : RunRecord}

/-! ## Starting -/

/-- Only the run may have moved before an attempt starts. -/
theorem enterExecution_tells (attempt : StepAttempt) :
    Tx.Ensures (enterExecution v.run attempt) (fun _ staged => ∃ run events,
      v.Turns staged { v with run := run, events := v.events ++ events } ∧
        v.Leads { v with run := run, events := v.events ++ events } ∧
          (run = v.run ∨ run = v.run.moved .running)) base [] := by
  have unchanged : ∃ run events, v.Turns [] { v with run := run, events := v.events ++ events } ∧
      v.Leads { v with run := run, events := v.events ++ events } ∧
        (run = v.run ∨ run = v.run.moved .running) :=
    ⟨v.run, [], ⟨by simp, by simp⟩, by simpa using RunRecord.Leads.refl v, Or.inl rfl⟩
  unfold enterExecution
  simp only [Tx.ensures_ite, Tx.ensures_bind, Tx.ensures_lift, Tx.ensures_pure, Tx.ensures_throw,
    Prod.forall, WorkflowRun.transition_eq_ok_iff, UowM.ensures_saveRun, Tx.ensures_stage,
    List.nil_append, List.cons_append, implies_true, true_and]
  refine ⟨fun _ => ?_, fun _ _ _ => unchanged⟩
  rintro _ _ ⟨htransition, rfl, rfl⟩ _
  exact ⟨v.run.moved .running, [v.run.movedEvent .running attempt.startedAt],
    ⟨by simp, rfl⟩, .runMoved _ htransition rfl rfl rfl rfl rfl, Or.inr rfl⟩

/-- The requests of the run are left alone. -/
theorem commitAttemptStarted_tells {attempt : StepAttempt}
    (h : base.record attempt.runId = some v) :
    Tx.Ensures (commitAttemptStarted attempt) (fun _ staged => v.Tells staged ∧
      (staged.foldl RunRecord.apply v).approvals = v.approvals ∧
        ((staged.foldl RunRecord.apply v).run = v.run ∨
          (staged.foldl RunRecord.apply v).run = v.run.moved .running)) base [] := by
  have hrunId := MemoryStore.runId_of_record h
  have hkeyed := MemoryStore.keyed_of_record h
  unfold commitAttemptStarted
  simp only [Tx.ensures_bind, Tx.ensures_read, Tx.ensures_require, Tx.view_nil,
    MemoryStore.runs_get_of_record h, Option.some.injEq, forall_eq']
  refine (enterExecution_tells attempt).mono ?_
  rintro _ staged ⟨run, events, hturns, hleads, hrun⟩
  simp only [MemoryStore.getStep_of_record (hturns.record h), Tx.ensures_ite, Tx.ensures_bind,
    Tx.ensures_lift, Tx.ensures_pure, Prod.forall, StepRun.transition_eq_ok_iff,
    UowM.ensures_saveStep, Tx.ensures_stage, UowM.ensures_addAttempt]
  intro row hrow
  obtain ⟨hid, hrowRun⟩ := hkeyed.step hrow
  refine ⟨fun _ => ?_, fun _ _ => ?_⟩
  · rintro _ _ ⟨htransition, rfl, rfl⟩ _ _
    rw [List.append_assoc, List.append_assoc, List.append_assoc, List.foldl_append, hturns.result]
    refine ⟨.of_turns (hturns.append (by simp [hrunId, hrowRun]) rfl) (hleads.trans ?_), rfl, hrun⟩
    refine (RunRecord.Leads.step (hid.symm ▸ hrow) htransition attempt.startedAt).trans ?_
    refine .of_fits rfl rfl (List.forall_mem_singleton.mpr ?_)
    exact Trail.fits_toolAttemptStarted _ _ _ _ _ (RunRecord.trail_steps (by simp [hid]))
  · rw [List.append_assoc, List.foldl_append, hturns.result]
    refine ⟨.of_turns (hturns.append (by simp [hrunId]) rfl) (hleads.trans ?_), rfl, hrun⟩
    refine .of_fits rfl rfl (List.forall_mem_singleton.mpr ?_)
    exact Trail.fits_toolAttemptStarted _ _ _ _ _ (RunRecord.trail_steps hrow)

/-! ## Promotion -/

/-- One more step moves on. -/
theorem RunRecord.Tells.stepMoved {staged : List Write} (h : v.Tells staged) {row : StepRun}
    {target : StepState} (hrow : (staged.foldl RunRecord.apply v).steps row.stepId = some row)
    (hrun : row.runId = v.run.runId) (htransition : target ∈ stepTransitions row.state)
    (occurredAt : Timestamp) (expected : ℕ) :
    v.Tells (staged ++ [Write.saveStep (row.moved target) expected,
      Write.appendEvent (row.movedEvent target occurredAt)]) where
  own := List.forall_mem_append.mpr ⟨h.own, by simp [hrun]⟩
  leads := by
    rw [List.foldl_append]
    exact h.leads.trans (.step hrow htransition occurredAt)

theorem promoteDueSteps_tells {runId : String} {now occurredAt : Timestamp}
    (h : base.record runId = some v) (steps : List StepDefinition) :
    ∀ {staged : List Write}, v.Tells staged →
      Tx.Ensures (promoteDueSteps runId now occurredAt steps) (fun _ final => v.Tells final)
        base staged := by
  induction steps with
  | nil =>
      intro staged htells
      simpa [promoteDueSteps] using htells
  | cons step rest ih =>
      intro staged htells
      have hrecord := MemoryStore.record_view h htells.own
      have hrunId := (MemoryStore.runId_of_record hrecord).trans (MemoryStore.runId_of_record h).symm
      unfold promoteDueSteps
      simp only [Tx.ensures_bind, Tx.ensures_read, MemoryStore.getStep_of_record hrecord]
      cases hrow : (staged.foldl RunRecord.apply v).steps step.id with
      | none => exact ih htells
      | some row =>
          -- the row is the one that the log has led to so far
          obtain ⟨hid, hrun⟩ := (MemoryStore.keyed_of_record hrecord).step hrow
          simp only [Tx.ensures_ite, Tx.ensures_bind, Tx.ensures_read]
          refine ⟨fun _ => ih htells, fun _ => ?_⟩
          split
          · exact ih htells
          · simp only [Tx.ensures_ite, Tx.ensures_bind, Tx.ensures_lift, Prod.forall,
              StepRun.transition_eq_ok_iff, UowM.ensures_saveStep, Tx.ensures_stage,
              Tx.ensures_pure]
            refine ⟨fun _ => ih htells, fun _ => ?_⟩
            rintro _ _ ⟨htransition, rfl, rfl⟩ _
            rw [List.append_assoc]
            exact ih (htells.stepMoved (hid.symm ▸ hrow) (hrun.trans hrunId) htransition _ _)

theorem promoteDueRetries_tells {runId : String} {now occurredAt : Timestamp}
    (h : base.record runId = some v) :
    Tx.Ensures (promoteDueRetries runId now occurredAt) (fun _ staged => v.Tells staged)
      base [] := by
  unfold promoteDueRetries
  simp only [Tx.ensures_bind, Tx.ensures_read, Tx.view_nil, MemoryStore.runs_get_of_record h,
    MemoryStore.definitionOf_of_record h, Tx.ensures_ite, Tx.ensures_pure]
  exact ⟨fun _ => .nil v, fun _ => promoteDueSteps_tells h v.definition.steps (.nil v)⟩

/-- The steps to promote are distinct, so that none of them has moved when its turn comes. -/
theorem promotePendingSteps_tells {runId : String} {occurredAt : Timestamp}
    (h : base.record runId = some v) (steps : List StepDefinition)
    (hnodup : (steps.map StepDefinition.id).Nodup) : ∀ {staged : List Write}, v.Tells staged →
      (∀ step ∈ steps, (staged.foldl RunRecord.apply v).steps step.id = v.steps step.id) →
      Tx.Ensures (promotePendingSteps v.stepRuns occurredAt steps)
        (fun _ final => v.Tells final) base staged := by
  have hkeyed := MemoryStore.keyed_of_record h
  induction steps with
  | nil =>
      intro staged htells _
      simpa [promotePendingSteps] using htells
  | cons step rest ih =>
      intro staged htells hunmoved
      obtain ⟨hnotMem, hrest⟩ := List.nodup_cons.mp hnodup
      have hlater := (List.forall_mem_cons.mp hunmoved).2
      unfold promotePendingSteps
      simp only [Tx.ensures_bind, Tx.ensures_require, Tx.ensures_ite, Tx.ensures_lift, Prod.forall,
        StepRun.transition_eq_ok_iff, UowM.ensures_saveStep, Tx.ensures_stage, Tx.ensures_pure]
      refine fun row hfind => ⟨fun _ => ih hrest htells hlater, fun _ => ?_⟩
      rintro _ _ ⟨htransition, rfl, rfl⟩ _
      have hrow := hkeyed.steps_of_mem_stepRuns (List.mem_of_find?_eq_some hfind)
      have hid : row.stepId = step.id := by simpa using List.find?_some hfind
      rw [List.append_assoc]
      refine ih hrest (htells.stepMoved ?_ (hkeyed.step hrow).2 htransition _ _) ?_
      · rw [hid, hunmoved step List.mem_cons_self, ← hid]
        exact hrow
      -- the steps are distinct, so the later ones have not been moved
      · intro other hother
        have hne : other.id ≠ row.stepId := fun hsame =>
          hnotMem (hid ▸ hsame ▸ List.mem_map_of_mem hother)
        rw [List.foldl_append]
        exact (Function.update_of_ne hne _ _).trans (hlater other hother)

theorem promoteDependencyReadySteps_tells {runId : String} {occurredAt : Timestamp}
    (h : base.record runId = some v) :
    Tx.Ensures (promoteDependencyReadySteps runId occurredAt) (fun _ staged => v.Tells staged)
      base [] := by
  unfold promoteDependencyReadySteps
  simp only [Tx.ensures_bind, Tx.ensures_read, Tx.view_nil, MemoryStore.runs_get_of_record h,
    MemoryStore.definitionOf_of_record h, Tx.ensures_ite, Tx.ensures_pure, Tx.ensures_lift,
    MemoryStore.stepRuns_of_record h]
  refine ⟨fun _ => .nil v, fun _ ready hready => ?_⟩
  exact promotePendingSteps_tells h ready (nodup_readySteps hready v.definition.ids_nodup) (.nil v)
    fun _ _ => rfl

/-! ## Outcomes -/

/-- The run moves on. -/
theorem RunRecord.Tells.runMoved {staged : List Write} (h : v.Tells staged) {run : WorkflowRun}
    (hrun : (staged.foldl RunRecord.apply v).run = run) {target : RunState}
    (htransition : target ∈ runTransitions run.state) {changed : WorkflowRun}
    (hown : (Write.saveRun changed run.revision).Belongs v.run) (hevent : run.runId = v.run.runId)
    (hchanged : (changed.state, changed.revision) = (target, run.revision + 1))
    (occurredAt : Timestamp) :
    v.Tells (staged ++ [Write.saveRun changed run.revision,
      Write.appendEvent (run.movedEvent target occurredAt)]) where
  own := List.forall_mem_append.mpr ⟨h.own, by simpa [hevent] using hown⟩
  leads := by
    subst hrun
    rw [List.foldl_append]
    exact h.leads.trans (.runMoved _ htransition hchanged (hown.1.trans hevent.symm) rfl rfl rfl)

theorem settleRun_tells {staged : List Write} {nextState : StepState} {outcome : ExecutionOutcome}
    {completedAt : Timestamp} (htells : v.Tells staged)
    (hcurrent : (staged.foldl RunRecord.apply v).run = v.run) :
    Tx.Ensures (settleRun v.run v.definition nextState outcome completedAt)
      (fun _ final => v.Tells final) base staged := by
  unfold settleRun
  simp only [Tx.ensures_ite, Tx.ensures_bind, Tx.ensures_read, Tx.ensures_lift, Tx.ensures_pure,
    Prod.forall, WorkflowRun.transition_eq_ok_iff, UowM.ensures_saveRun, Tx.ensures_stage]
  refine ⟨fun _ _ _ => ⟨fun _ => ?_, fun _ => htells⟩, fun _ => ⟨fun _ _ _ => ?_, fun _ => htells⟩⟩
  all_goals
    rintro _ _ ⟨htransition, rfl, rfl⟩ _
    rw [List.append_assoc]
    exact htells.runMoved hcurrent htransition (by simp) rfl rfl _

theorem persistCompensationOutcome_tells {cfg : Deployment} {row : StepRun}
    {attempt : StepAttempt} {outcome : ExecutionOutcome} {completedAt : Timestamp}
    {sensitivePaths : List (List String)} (hbase : base.record outcome.runId = some v)
    (hrow : v.steps outcome.stepId = some row)
    (hattempt : v.findAttempt outcome.stepId outcome.attemptNo = some attempt) :
    Tx.Ensures (persistCompensationOutcome cfg v.run v.definition row attempt outcome completedAt
      sensitivePaths) (fun _ staged => v.Tells staged) base [] := by
  obtain ⟨hmem, hstepId, _⟩ := RunRecord.findAttempt_eq_some hattempt
  have hrunId : attempt.runId = v.run.runId := (MemoryStore.keyed_of_record hbase).attempt _ hmem
  unfold persistCompensationOutcome
  generalize redact cfg.runtime sensitivePaths outcome.result = result
  have htells : v.Tells [.saveAttempt (attempt.completedWith outcome completedAt none result),
      .appendEvent (completedEvent attempt row outcome completedAt result)] := by
    refine ⟨by simp [hrunId], .of_fits rfl rfl (List.forall_mem_singleton.mpr ?_)⟩
    exact Trail.fits_completedEvent outcome completedAt result
      (RunRecord.trail_steps (hstepId ▸ hrow))
  simp only [Tx.ensures_ite, Tx.ensures_bind, Tx.ensures_read, Tx.ensures_lift, Tx.ensures_pure,
    Prod.forall, WorkflowRun.transition_eq_ok_iff, UowM.ensures_saveRun, Tx.ensures_stage,
    UowM.ensures_saveAttempt, List.nil_append, List.singleton_append]
  refine fun _ => ⟨fun _ => ?_, fun _ _ _ => ⟨fun _ => ?_, fun _ => htells⟩⟩
  all_goals
    rintro _ _ ⟨htransition, rfl, rfl⟩ _
    rw [List.append_assoc]
    exact htells.runMoved rfl htransition (by simp) rfl rfl _

theorem persistForwardOutcome_tells {cfg : Deployment} {step : StepDefinition} {row : StepRun}
    {attempt : StepAttempt} {outcome : ExecutionOutcome} {completedAt : Timestamp}
    {sensitivePaths : List (List String)} (hbase : base.record outcome.runId = some v)
    (hrow : v.steps outcome.stepId = some row)
    (hattempt : v.findAttempt outcome.stepId outcome.attemptNo = some attempt) :
    Tx.Ensures (persistForwardOutcome cfg v.run v.definition step row attempt outcome completedAt
      sensitivePaths) (fun _ staged => v.Tells staged) base [] := by
  have hkeyed := MemoryStore.keyed_of_record hbase
  obtain ⟨hid, hrowRun⟩ := hkeyed.step hrow
  obtain ⟨hmem, hstepId, _⟩ := RunRecord.findAttempt_eq_some hattempt
  have hrunId : attempt.runId = v.run.runId := hkeyed.attempt _ hmem
  unfold persistForwardOutcome
  generalize redact cfg.runtime sensitivePaths outcome.result = result
  simp only [Tx.ensures_bind, Tx.ensures_read, Tx.ensures_lift, Prod.forall,
    StepRun.transition_eq_ok_iff, UowM.ensures_saveStep, Tx.ensures_stage,
    UowM.ensures_saveAttempt, List.nil_append, List.cons_append, Tx.view_nil,
    MemoryStore.stepRuns_of_record hbase]
  rintro nextState nextAttemptAt _ _ _ ⟨htransition, rfl, rfl⟩
  rw [show (if nextState = .succeeded then
      { row.moved nextState with
        completionSequence := some (nextCompletionSequence v.stepRuns)
        logicalIdempotencyKey := some attempt.idempotencyKey }
    else row.moved nextState) = v.finishedStep row nextState attempt.idempotencyKey from rfl]
  intro _ _
  -- the finished row differs from the moved one in what the log does not tell
  have hfinished : ∃ finished, v.finishedStep row nextState attempt.idempotencyKey = finished ∧
      finished.stepId = row.stepId ∧ finished.runId = row.runId ∧
        (finished.state, finished.revision) = (nextState, row.revision + 1) := by
    refine ⟨_, rfl, ?_⟩
    unfold RunRecord.finishedStep
    split <;> exact ⟨rfl, rfl, rfl⟩
  obtain ⟨finished, hfinished, hfinishedId, hfinishedRun, hstate⟩ := hfinished
  rw [hfinished]
  -- the event of the step leads to its new state
  have hmoved : v.Leads { v with
      steps := Function.update v.steps row.stepId (some finished)
      attempts := v.attempts.put (attempt.completedWith outcome completedAt nextAttemptAt result)
      events := v.events ++ [row.movedEvent nextState completedAt] } :=
    .stepMoved (hid.symm ▸ hrow) htransition hstate rfl rfl rfl rfl
  -- the event of the attempt finds the step there
  have hcompleted : v.Leads { v with
      steps := Function.update v.steps row.stepId (some finished)
      attempts := v.attempts.put (attempt.completedWith outcome completedAt nextAttemptAt result)
      events := v.events ++ [row.movedEvent nextState completedAt] ++
        [completedEvent attempt finished outcome completedAt result] } := by
    refine hmoved.trans (.of_fits rfl rfl (List.forall_mem_singleton.mpr ?_))
    exact Trail.fits_completedEvent outcome completedAt result
      (RunRecord.trail_steps (by simp [hstepId, hid]))
  refine settleRun_tells (.of_turns ⟨?_, ?_⟩ hcompleted) rfl
  · simp [hrunId, hrowRun, hfinishedRun]
  · simp [hfinishedId]

theorem persistOutcome_tells {cfg : Deployment} {outcome : ExecutionOutcome}
    {completedAt : Timestamp} {sensitivePaths : List (List String)}
    (hbase : base.record outcome.runId = some v) :
    Tx.Ensures (persistOutcome cfg outcome completedAt sensitivePaths)
      (fun _ staged => v.Tells staged) base [] := by
  unfold persistOutcome
  simp only [Tx.ensures_bind, Tx.ensures_read, Tx.ensures_require, Tx.ensures_ite,
    Tx.ensures_pure, Tx.view_nil, MemoryStore.runs_get_of_record hbase,
    MemoryStore.getStep_of_record hbase, MemoryStore.listStepAttempts_of_record hbase,
    Option.some.injEq, forall_eq', MemoryStore.definitionOf_of_record hbase]
  intro step _ row hrow attempt hattempt
  exact ⟨fun _ => persistCompensationOutcome_tells hbase hrow hattempt,
    fun _ => persistForwardOutcome_tells hbase hrow hattempt⟩

/-! ## The end of a run -/

theorem completeCompensation_tells {runId : String} {occurredAt : Timestamp}
    (hbase : base.record runId = some v) :
    Tx.Ensures (completeCompensation runId occurredAt) (fun _ staged => v.Tells staged)
      base [] := by
  unfold completeCompensation
  simp only [Tx.ensures_bind, Tx.ensures_read, Tx.view_nil, MemoryStore.runs_get_of_record hbase,
    Tx.ensures_ite, Tx.ensures_pure, Tx.ensures_lift, Prod.forall,
    WorkflowRun.transition_eq_ok_iff, UowM.ensures_saveRun, Tx.ensures_stage]
  refine ⟨fun _ => .nil v, fun _ => ?_⟩
  rintro _ _ ⟨htransition, rfl, rfl⟩ _
  exact (RunRecord.Tells.nil v).runMoved rfl htransition (by simp) rfl rfl _

theorem cancelRun_tells {runId : String} {occurredAt : Timestamp}
    (hbase : base.record runId = some v) :
    Tx.Ensures (WorkflowService.cancelRun runId occurredAt) (fun _ staged => v.Tells staged)
      base [] := by
  unfold WorkflowService.cancelRun
  simp only [Tx.ensures_bind, Tx.ensures_read, Tx.view_nil, MemoryStore.runs_get_of_record hbase,
    Tx.ensures_require, Option.some.injEq, forall_eq', Tx.ensures_pure, Tx.ensures_lift,
    Prod.forall, WorkflowRun.transition_eq_ok_iff, UowM.ensures_saveRun, Tx.ensures_stage]
  rintro _ _ ⟨htransition, rfl, rfl⟩ _
  exact (RunRecord.Tells.nil v).runMoved rfl htransition (by simp) rfl rfl _

/-! ## Recovery -/

/-- The last event of a recovery names the state that its step is in. -/
theorem RunRecord.Tells.recoveryEvent {staged : List Write} (h : v.Tells staged)
    {attempt : StepAttempt} {row : StepRun} {eventType : EventType}
    (htype : eventType ∈ [.recoveryApplied, .recoveryNotApplied, .recoveryManualIntervention])
    (occurredAt : Timestamp) (decision : String) (hrunId : attempt.runId = v.run.runId)
    (hrow : (staged.foldl RunRecord.apply v).steps attempt.stepId = some row) :
    v.Tells (staged ++ [Write.appendEvent
      (ChangePilot.recoveryEvent eventType row attempt occurredAt decision)]) where
  own := List.forall_mem_append.mpr ⟨h.own, by simp [hrunId]⟩
  leads := by
    rw [List.foldl_append]
    refine h.leads.trans (.of_fits rfl rfl (List.forall_mem_singleton.mpr ?_))
    exact Trail.fits_recoveryEvent htype occurredAt decision (RunRecord.trail_steps hrow)

/-- A write of an attempt tells nothing. -/
theorem RunRecord.Tells.saveAttempt {staged : List Write} (h : v.Tells staged)
    {attempt : StepAttempt} (hrunId : attempt.runId = v.run.runId) :
    v.Tells (staged ++ [Write.saveAttempt attempt]) where
  own := List.forall_mem_append.mpr ⟨h.own, by simp [hrunId]⟩
  leads := by
    rw [List.foldl_append]
    exact h.leads.trans (.of_fits rfl (List.append_nil _).symm (by simp))

/-- A step is moved by a forward decision only, and its row is the one that is answered. -/
theorem moveStep_tells {row : StepRun} {phase : ToolExecutionPhase} {target : StepState}
    {occurredAt : Timestamp} {staged : List Write} (htells : v.Tells staged)
    (hrow : (staged.foldl RunRecord.apply v).steps row.stepId = some row)
    (hrun : (staged.foldl RunRecord.apply v).run = v.run) (hrunId : row.runId = v.run.runId) :
    Tx.Ensures (moveStep row phase target occurredAt) (fun changed final => v.Tells final ∧
      (final.foldl RunRecord.apply v).steps row.stepId = some changed ∧
      (final.foldl RunRecord.apply v).run = v.run) base staged := by
  rw [ensures_moveStep]
  refine ⟨fun _ htransition => ⟨htells.stepMoved hrow hrunId htransition _ _, ?_⟩,
    fun _ => ⟨htells, hrow, hrun⟩⟩
  rw [List.foldl_append]
  exact ⟨Function.update_self .., hrun⟩

theorem runAfterApplied_moves {store : MemoryStore} {run : WorkflowRun}
    {definition : WorkflowDefinition} {stepId : String} {phase : ToolExecutionPhase}
    {occurredAt : Timestamp} {changed : WorkflowRun} {event : AuditEvent}
    (h : runAfterApplied store run definition stepId phase occurredAt =
      .ok (some (changed, event))) :
    ∃ target ∈ runTransitions run.state, changed = run.moved target ∧
      event = run.movedEvent target occurredAt := by
  simp only [runAfterApplied, Except.bind_eq_ok_iff] at h
  obtain ⟨target, _, h⟩ := h
  cases target with
  | none => simp at h
  | some target =>
      simp only [Except.bind_eq_ok_iff, Except.pure_eq_ok_iff, Prod.exists,
        WorkflowRun.transition_eq_ok_iff, Option.some.injEq, Prod.mk.injEq] at h
      obtain ⟨_, _, ⟨htransition, rfl, rfl⟩, rfl, rfl⟩ := h
      exact ⟨target, htransition, rfl, rfl⟩

section Recovery

variable {row : StepRun} {attempt : StepAttempt} {occurredAt : Timestamp}

theorem persistApplied_tells {cfg : Deployment} {step : StepDefinition} {output : Value}
    (hkeyed : v.Keyed) (hrow : v.steps attempt.stepId = some row)
    (hrunId : attempt.runId = v.run.runId) :
    Tx.Ensures (persistApplied cfg v.run v.definition step row attempt output occurredAt)
      (fun _ staged => v.Tells staged) base [] := by
  obtain ⟨hid, hrowRun⟩ := hkeyed.step hrow
  unfold persistApplied
  simp only [Tx.ensures_bind, Tx.ensures_require, Tx.ensures_lift, UowM.ensures_saveAttempt,
    Tx.ensures_read, ensures_saveChangedRun, Tx.ensures_stage]
  intro tool _ descriptor _ _
  generalize redact cfg.runtime descriptor.sensitiveArgumentPaths output = result
  -- saving the attempt needs no event
  have htells : v.Tells ([] ++ [.saveAttempt (attempt.applied occurredAt result)]) :=
    (RunRecord.Tells.nil v).saveAttempt hrunId
  refine (moveStep_tells htells (hid.symm ▸ hrow) rfl hrowRun).mono ?_
  rintro changed staged ⟨htells, hchanged, hrun⟩
  rw [hid] at hchanged
  intro change hchange
  cases change with
  | none =>
      exact htells.recoveryEvent (by simp) occurredAt "applied" hrunId hchanged
  -- the run moves as well, with an event of its own
  | some change =>
      obtain ⟨target, htransition, hrunChanged, hevent⟩ := runAfterApplied_moves hchange
      obtain ⟨_, _⟩ := change
      obtain rfl := hrunChanged
      obtain rfl := hevent
      intro _
      refine (htells.runMoved hrun htransition (by simp) rfl rfl occurredAt).recoveryEvent
        (by simp) occurredAt "applied" hrunId ?_
      rw [List.foldl_append]
      exact hchanged

theorem persistNotApplied_tells (hkeyed : v.Keyed) (hrow : v.steps attempt.stepId = some row)
    (hrunId : attempt.runId = v.run.runId) :
    Tx.Ensures (persistNotApplied row attempt occurredAt) (fun _ staged => v.Tells staged)
      base [] := by
  obtain ⟨hid, hrowRun⟩ := hkeyed.step hrow
  unfold persistNotApplied
  simp only [Tx.ensures_bind, UowM.ensures_saveAttempt, Tx.ensures_stage]
  refine (moveStep_tells (.nil v) (hid.symm ▸ hrow) rfl hrowRun).mono ?_
  rintro changed staged ⟨htells, hchanged, _⟩ _
  have hsaved : v.Tells (staged ++ [.saveAttempt (attempt.closed .notApplied occurredAt)]) :=
    htells.saveAttempt hrunId
  refine hsaved.recoveryEvent (by simp) occurredAt "not_applied" hrunId ?_
  rw [List.foldl_append, ← hid]
  exact hchanged

theorem persistManualIntervention_tells (hkeyed : v.Keyed)
    (hrow : v.steps attempt.stepId = some row) (hrunId : attempt.runId = v.run.runId) :
    Tx.Ensures (persistManualIntervention v.run row attempt occurredAt)
      (fun _ staged => v.Tells staged) base [] := by
  obtain ⟨hid, hrowRun⟩ := hkeyed.step hrow
  unfold persistManualIntervention
  simp only [Tx.ensures_bind, Tx.ensures_lift, Prod.forall, WorkflowRun.transition_eq_ok_iff,
    UowM.ensures_saveRun, UowM.ensures_saveAttempt, Tx.ensures_stage]
  refine (moveStep_tells (.nil v) (hid.symm ▸ hrow) rfl hrowRun).mono ?_
  rintro changed staged ⟨htells, hchanged, hrun⟩ _ _ ⟨htransition, rfl, rfl⟩
  have hmanual : ∃ manual, (if attempt.phase = .compensation then
      { v.run.moved .manualIntervention with compensationError := some unprovenCompensation }
    else v.run.moved .manualIntervention) = manual ∧
      (Write.saveRun manual v.run.revision).Belongs v.run ∧
      (manual.state, manual.revision) = (.manualIntervention, v.run.revision + 1) := by
    refine ⟨_, rfl, ?_⟩
    split <;> exact ⟨⟨rfl, rfl, rfl⟩, rfl⟩
  obtain ⟨manual, hmanual, hmanualOwn, hstate⟩ := hmanual
  rw [hmanual]
  intro _ _
  -- the attempt is saved between the run and its event
  have hmoved : v.Tells (staged ++ [.saveRun manual v.run.revision] ++
      [.saveAttempt (attempt.closed .manualIntervention occurredAt)] ++
        [.appendEvent (v.run.movedEvent .manualIntervention occurredAt)]) := by
    rw [List.append_assoc, List.append_assoc]
    refine ⟨List.forall_mem_append.mpr ⟨htells.own, by simpa [hrunId] using hmanualOwn⟩, ?_⟩
    rw [List.foldl_append]
    refine htells.leads.trans (.runMoved occurredAt (hrun.symm ▸ htransition)
      (hrun.symm ▸ hstate) (hrun.symm ▸ hmanualOwn.1) rfl rfl ?_)
    rw [hrun]
    rfl
  refine hmoved.recoveryEvent (by simp) occurredAt "manual_intervention" hrunId ?_
  rw [List.append_assoc, List.append_assoc, List.foldl_append, ← hid]
  exact hchanged

end Recovery

theorem recoverAttempt_tells {cfg : Deployment} {answers : ProbeAnswers} {runId stepId : String}
    {expected : StepAttempt} {occurredAt : Timestamp} (hbase : base.record runId = some v) :
    Tx.Ensures (recoverAttempt cfg answers runId stepId expected occurredAt)
      (fun _ staged => v.Tells staged) base [] := by
  have hkeyed := MemoryStore.keyed_of_record hbase
  unfold recoverAttempt
  simp only [Tx.ensures_bind, Tx.ensures_read, Tx.ensures_require, Tx.ensures_lift,
    Tx.view_nil, MemoryStore.runs_get_of_record hbase,
    MemoryStore.definitionOf_of_record hbase, MemoryStore.getStep_of_record hbase,
    MemoryStore.listStepAttempts_of_record hbase, Option.some.injEq, forall_eq']
  intro step _ row hrow attempt hattempt
  obtain ⟨hmem, hstepId⟩ := RunRecord.mem_stepAttempts.mp (List.mem_of_find?_eq_some hattempt)
  rw [← hstepId] at hrow
  intro answer _
  rcases answer with _ | ⟨output⟩ | _ | _
  all_goals simp only [Tx.ensures_bind, Tx.ensures_pure]
  case some.found => exact persistApplied_tells hkeyed hrow (hkeyed.attempt _ hmem)
  case some.notFound => exact persistNotApplied_tells hkeyed hrow (hkeyed.attempt _ hmem)
  all_goals exact persistManualIntervention_tells hkeyed hrow (hkeyed.attempt _ hmem)

/-! ## Decisions -/

/-- The event of a decision names the state that the run is decided in, which it then
leaves. -/
theorem decide_tells {runtime : Runtime} {runId requestId bindingDigest actor reason : String}
    {decision : ApprovalDecision} {expectedVersion : ℤ} {occurredAt : Timestamp}
    (hbase : base.record runId = some v) :
    Tx.Ensures (ApprovalService.decide runtime runId requestId decision expectedVersion
      bindingDigest actor reason occurredAt) (fun _ staged => v.Tells staged) base [] := by
  unfold ApprovalService.decide
  simp only [Tx.ensures_bind, Tx.ensures_read, Tx.ensures_require, Tx.ensures_lift,
    Tx.ensures_ite, Tx.ensures_throw, Tx.ensures_pure, Tx.view_nil, Prod.forall,
    WorkflowRun.transition_eq_ok_iff, UowM.ensures_saveRun, UowM.ensures_saveApproval,
    Tx.ensures_stage, imp_true_iff, true_and, List.nil_append, List.cons_append]
  intro request hrequest run hrun awaits _
  obtain ⟨hmem, hid⟩ := MemoryStore.mem_approvals_of_record hbase hrequest
  have hrunId : request.runId = v.run.runId :=
    (MemoryStore.keyed_of_record hbase).approval _ hmem
  obtain rfl : v.run = run := by
    rw [hrunId, MemoryStore.runId_of_record hbase, MemoryStore.runs_get_of_record hbase] at hrun
    exact Option.some.inj hrun
  rintro _ _ hpending _ _ target _ _ _ ⟨htransition, rfl, rfl⟩ _ _ _
  have hstatus : v.trail.requests request.id = some .pending := by
    rw [RunRecord.trail_requests hrunId, KeyedTable.get_key hmem, Option.map_some,
      not_not.mp hpending]
  generalize hchanged : request.decided decision .. = changed
  generalize hevent : AuditEvent.approvalChanged .. = event
  have hdecided : v.Leads ((v.putApproval changed).log event) := by
    refine .request (hchanged ▸ hrunId) ?_
    rw [← hevent, ← hchanged]
    cases decision <;> exact (if_pos rfl).trans
      (Trail.nextRequest_eq_some rfl (congrArg (Trail.requestMove _) hstatus))
  refine ⟨by simp [hrunId, ← hevent, ← hchanged], hdecided.trans ?_⟩
  exact .runMoved occurredAt htransition rfl rfl rfl rfl rfl

/-! ## The approval barrier -/

/-- Between two turns of the loop over the requests: those that are still to be looked at
are as they were, there is no new one, and the one that has been found is pending. -/
structure RunRecord.Invalidating (v : RunRecord) (staged : List Write)
    (matching : Option ApprovalRequest) (requests : List ApprovalRequest) : Prop where
  tells : v.Tells staged
  run : (staged.foldl RunRecord.apply v).run = v.run
  distinct : requests.Pairwise fun a b => a.key ≠ b.key
  kept : ∀ request ∈ requests, request ∈ v.approvals.rows ∧
    (staged.foldl RunRecord.apply v).approvals.get request.key = some request
  absent : ∀ key, v.approvals.get key = none →
    (staged.foldl RunRecord.apply v).approvals.get key = none
  found : ∀ request ∈ matching, request.status = .pending ∧
    (staged.foldl RunRecord.apply v).approvals.get request.key = some request ∧
      ∀ other ∈ requests, other.key ≠ request.key

namespace RunRecord.Invalidating

variable {staged : List Write} {matching : Option ApprovalRequest} {request : ApprovalRequest}
  {rest : List ApprovalRequest}

theorem start (v : RunRecord) : v.Invalidating [] none v.approvals.rows where
  tells := .nil v
  run := rfl
  distinct := v.approvals.sorted.imp fun h => h.ne
  kept _ hrequest := ⟨hrequest, KeyedTable.get_key hrequest⟩
  absent _ hnone := hnone
  found _ hmatching := nomatch hmatching

/-- The request is left as it is. -/
theorem skip (h : v.Invalidating staged matching (request :: rest)) :
    v.Invalidating staged matching rest where
  tells := h.tells
  run := h.run
  distinct := (List.pairwise_cons.mp h.distinct).2
  kept := (List.forall_mem_cons.mp h.kept).2
  absent := h.absent
  found found hfound :=
    (h.found found hfound).imp_right (And.imp_right fun h => (List.forall_mem_cons.mp h).2)

/-- The request is found. -/
theorem find (h : v.Invalidating staged matching (request :: rest))
    (hpending : request.status = .pending) : v.Invalidating staged (some request) rest where
  __ := h.skip
  found _ hfound := by
    obtain rfl := Option.some.inj hfound
    exact ⟨hpending, (h.kept request List.mem_cons_self).2, fun other hother hkey =>
      (List.pairwise_cons.mp h.distinct).1 other hother hkey.symm⟩

/-- The request is invalidated. -/
theorem invalidate (h : v.Invalidating staged matching (request :: rest))
    (hkeyed : v.Keyed) (hopen : request.status = .pending ∨ request.status = .approved)
    (occurredAt : Timestamp) (expected : ℕ) :
    v.Invalidating (staged ++ [.saveApproval (request.invalidated occurredAt) expected,
      .appendEvent (.approvalChanged v.run.runId request.stepId .approvalInvalidated occurredAt
        v.run.state v.run.state v.run.revision v.run.revision request.id
        request.bindingDigest.val "invalidated" [])]) matching rest := by
  obtain ⟨hrequest, hget⟩ := h.kept request List.mem_cons_self
  have hrunId := hkeyed.approval _ hrequest
  have hown : request.runId = (staged.foldl RunRecord.apply v).run.runId := by
    rw [h.run]
    exact hrunId
  -- the write touches the row of this request only
  have hne (key : ApprovalKey) (hkey : key ≠ request.key) :
      (KeyedTable.put (staged.foldl RunRecord.apply v).approvals
        (request.invalidated occurredAt)).get key =
          (staged.foldl RunRecord.apply v).approvals.get key := KeyedTable.get_put_ne _ hkey
  refine ⟨⟨List.forall_mem_append.mpr ⟨h.tells.own, by simp [hrunId]⟩, ?_⟩, ?_, h.skip.distinct,
    ?_, ?_, ?_⟩ <;> rw [List.foldl_append]
  · have hinvalidated : (request.invalidated occurredAt).runId =
        (staged.foldl RunRecord.apply v).run.runId := hown
    refine h.tells.leads.trans (.request hinvalidated ?_)
    -- the log names the status that the row had before the write
    have hmove : Trail.requestMove .approvalInvalidated (some request.status) =
        some .invalidated := by
      rcases hopen with hopen | hopen <;> rw [hopen] <;> rfl
    have hstatus : (staged.foldl RunRecord.apply v).trail.requests request.id =
        some request.status := by
      rw [RunRecord.trail_requests hown, hget]
      rfl
    rw [← hstatus] at hmove
    refine (if_pos ?_).trans (Trail.nextRequest_eq_some rfl hmove)
    show ((staged.foldl RunRecord.apply v).run.state, _) = _
    rw [h.run]
    rfl
  · exact h.run
  · intro other hother
    obtain ⟨hmem, hkept⟩ := h.kept other (List.mem_cons_of_mem _ hother)
    exact ⟨hmem, (hne _ fun hkey =>
      (List.pairwise_cons.mp h.distinct).1 other hother hkey.symm).trans hkept⟩
  · intro key hnone
    refine (hne key fun hkey => ?_).trans (h.absent key hnone)
    rw [hkey, KeyedTable.get_key hrequest] at hnone
    cases hnone
  · intro found hfound
    obtain ⟨hpending, hkept, hothers⟩ := h.found found hfound
    exact ⟨hpending, (hne _ (hothers request List.mem_cons_self).symm).trans hkept,
      (List.forall_mem_cons.mp hothers).2⟩

end RunRecord.Invalidating

theorem invalidateOthers_invalidates {binding : Binding} {occurredAt : Timestamp}
    (hkeyed : v.Keyed) (requests : List ApprovalRequest) :
    ∀ {matching : Option ApprovalRequest} {staged : List Write},
      v.Invalidating staged matching requests →
      Tx.Ensures (invalidateOthers v.run binding occurredAt matching requests)
        (fun found final => v.Invalidating final found []) base staged := by
  induction requests with
  | nil =>
      intro matching staged h
      simpa [invalidateOthers] using h
  | cons request rest ih =>
      intro matching staged h
      unfold invalidateOthers
      simp only [Tx.ensures_ite, Tx.ensures_bind, UowM.ensures_saveApproval, Tx.ensures_stage]
      refine ⟨fun _ => ih h.skip, fun hopen => ⟨fun _ => ?_, fun _ _ _ => ?_⟩⟩
      · split
        · exact ih (h.find ‹_›)
        · exact ih h.skip
      · rw [List.append_assoc]
        refine ih (h.invalidate hkeyed ?_ occurredAt _)
        by_contra hclosed
        exact hopen (not_or.mp hclosed)

/-- The run waits after it, and its requests are as before. -/
theorem enterWaiting_tells {staged : List Write} {occurredAt : Timestamp} (htells : v.Tells staged)
    (hrun : (staged.foldl RunRecord.apply v).run = v.run) :
    Tx.Ensures (enterWaiting v.run occurredAt) (fun run final => v.Tells final ∧
      (final.foldl RunRecord.apply v).run = run ∧ run.runId = v.run.runId ∧
      (final.foldl RunRecord.apply v).approvals = (staged.foldl RunRecord.apply v).approvals)
      base staged := by
  unfold enterWaiting
  simp only [Tx.ensures_ite, Tx.ensures_bind, Tx.ensures_lift, Prod.forall,
    WorkflowRun.transition_eq_ok_iff, UowM.ensures_saveRun, Tx.ensures_stage, Tx.ensures_pure]
  refine ⟨fun _ => ?_, fun _ => ⟨htells, hrun, trivial, trivial⟩⟩
  rintro _ _ ⟨htransition, rfl, rfl⟩ _
  rw [List.append_assoc]
  refine ⟨htells.runMoved hrun htransition (by simp) rfl rfl _, ?_, rfl, ?_⟩ <;>
    rw [List.foldl_append] <;> rfl

/-- The request that a barrier waits for is pending. -/
def RunRecord.Asks (v : RunRecord) : Prop :=
  ∃ request ∈ v.approvals.rows, request.status = .pending

/-- The new request of a barrier has an id of its own, or else the commit is refused. -/
theorem establishApprovalBarrier_tells {cfg : Deployment} {ownedFutures : List OwnedFuture}
    {runId stepId newId : String} {occurredAt : Timestamp} (hbase : base.record runId = some v) :
    Tx.Ensures (establishApprovalBarrier cfg ownedFutures runId stepId newId occurredAt)
      (fun exit staged => validate staged base = .ok () → v.Tells staged ∧
        (exit.Committed → (staged.foldl RunRecord.apply v).Asks)) base [] := by
  unfold establishApprovalBarrier
  simp only [Tx.ensures_bind, Tx.ensures_read, Tx.ensures_require, Tx.ensures_lift,
    Tx.ensures_ite, Tx.ensures_pure, Tx.view_nil, MemoryStore.runs_get_of_record hbase,
    MemoryStore.definitionOf_of_record hbase, Option.some.injEq, forall_eq',
    MemoryStore.listApprovals_of_record hbase]
  refine fun _ _ => ⟨fun _ _ => ⟨.nil v, False.elim⟩,
    fun _ step _ snapshot _ => ⟨fun _ _ => ⟨.nil v, False.elim⟩, fun _ => ?_⟩⟩
  refine (invalidateOthers_invalidates (MemoryStore.keyed_of_record hbase) _ (.start v)).mono ?_
  intro matching staged h
  refine (enterWaiting_tells h.tells h.run).mono ?_
  rintro run final ⟨htells, hrun, hidentity, happrovals⟩
  simp only [Tx.ensures_stage, UowM.ensures_addApproval]
  refine ⟨fun _ _ hvalid => ?_, fun hsome _ => ⟨htells, fun _ => ?_⟩⟩
  · rw [List.append_assoc]
    generalize hrequest : newRequest runId v.definition step snapshot newId occurredAt = request
      at hvalid ⊢
    have hrunId : request.runId = (final.foldl RunRecord.apply v).run.runId := by
      rw [← hrequest, hrun, hidentity, MemoryStore.runId_of_record hbase]
      rfl
    -- an id that is in use would make `validate` refuse the commit
    have hnone : (final.foldl RunRecord.apply v).trail.requests request.id = none := by
      have hfresh : base.approvals.get request.key = none := by
        simpa [Write.uniqueness] using
          uniqueness_of_validate hvalid (by simp : Write.addApproval request ∈ _)
      rw [RunRecord.trail_requests hrunId, happrovals, Option.map_eq_none_iff]
      refine h.absent _ (Option.eq_none_iff_forall_ne_some.mpr fun other hother => ?_)
      obtain ⟨hmem, hkey⟩ := (KeyedTable.get_eq_some_iff _).mp hother
      have hget := MemoryStore.approvals_get_of_mem hbase hmem
      rw [← MemoryStore.runId_of_record hbase,
        ← (MemoryStore.keyed_of_record hbase).approval _ hmem] at hget
      exact absurd ((congrArg base.approvals.get hkey).symm.trans hget) (by simp [hfresh])
    have hasked : (final.foldl RunRecord.apply v).Leads
        (((final.foldl RunRecord.apply v).putApproval request).log
          (createdApprovalEvent v.run run request occurredAt)) := by
      refine .request hrunId ((if_pos ?_).trans (Trail.nextRequest_eq_some rfl ?_))
      · show ((final.foldl RunRecord.apply v).run.state, _) = _
        rw [hrun]
        rfl
      · rw [hnone, ← hrequest]
        rfl
    refine ⟨⟨List.forall_mem_append.mpr ⟨htells.own, ?_⟩, ?_⟩, fun _ => ?_⟩
    · rw [hrun, hidentity] at hrunId
      simp [createdApprovalEvent, hrunId]
    · rw [List.foldl_append]
      exact htells.leads.trans hasked
    · rw [List.foldl_append]
      exact ⟨request, KeyedTable.mem_put.mpr (Or.inl rfl), by rw [← hrequest]; rfl⟩
  · -- a matching request is there already, and was left pending
    obtain ⟨request, hrequest⟩ := Option.ne_none_iff_exists'.mp (by simpa using hsome)
    obtain ⟨hpending, hget, _⟩ := h.found request hrequest
    exact ⟨request, happrovals ▸ ((KeyedTable.get_eq_some_iff _).mp hget).1, hpending⟩

end

end ChangePilot
