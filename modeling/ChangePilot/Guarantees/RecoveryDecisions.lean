import ChangePilot.Guarantees.Unknowns
import ChangePilot.System.Submissions

/-!
# Decisions of recovery

What the unit of work of recovery does to the run when it is committed, and when it is:
the unit raises only when the run has already ended and the attempt is one that nobody can
tell anything about.
-/

namespace ChangePilot

/-! ## What a decision does -/

/-- The attempt of the step is decided: it ends, its step moves on if it is a forward
attempt, and the run may end. -/
structure RunRecord.Decides (v : RunRecord) (stepId : String) (attempt : StepAttempt)
    (v' : RunRecord) : Prop where
  definition : v'.definition = v.definition
  state : v'.run.state = v.run.state ∨
    v'.run.state ∈ [.succeeded, .compensated, .manualIntervention]
  steps : ∃ row changed, v.steps stepId = some row ∧
    v'.steps = Function.update v.steps stepId (some changed) ∧
    ((attempt.phase = .forward ∧ changed.state ∈ [.succeeded, .ready, .manualIntervention]) ∨
      (attempt.phase ≠ .forward ∧ changed = row))
  attempts : attempt ∈ v.stepAttempts stepId ∧ ∃ new, new.key = attempt.key ∧
    new.status ≠ .running ∧ v'.attempts = v.attempts.put new

section

variable {base next : MemoryStore} {v v' : RunRecord} {cfg : Deployment} {answers : ProbeAnswers}
  {runId stepId : String} {expected : StepAttempt} {occurredAt : Timestamp}

theorem StepRun.Decided.state_mem {row changed : StepRun} {phase : ToolExecutionPhase}
    {target : StepState} (h : row.Decided phase target changed)
    (htarget : target ∈ [.succeeded, .ready, .manualIntervention]) :
    (phase = .forward ∧ changed.state ∈ [.succeeded, .ready, .manualIntervention]) ∨
      (phase ≠ .forward ∧ changed = row) := by
  rcases h with ⟨hforward, _, rfl⟩ | hother
  · exact Or.inl ⟨hforward, htarget⟩
  · exact Or.inr hother

/-- The other steps of the run stay as they are. -/
theorem RunRecord.Decides.others {attempt : StepAttempt} (h : v.Decides stepId attempt v')
    {other : String} (hother : other ≠ stepId) :
    v'.steps other = v.steps other ∧ v'.stepAttempts other = v.stepAttempts other := by
  obtain ⟨_, changed, _, hsteps, _⟩ := h.steps
  obtain ⟨hattempt, new, hkey, _, hattempts⟩ := h.attempts
  obtain ⟨_, haId⟩ := RunRecord.mem_stepAttempts.mp hattempt
  refine ⟨by rw [hsteps, Function.update_of_ne hother], RunRecord.stepAttempts_put_ne hattempts ?_⟩
  rw [(StepAttempt.key_eq_iff.mp hkey).2.1, haId]
  exact hother.symm

/-- A committed unit of recovery decides the attempt with the expected number and phase. -/
theorem MemoryStore.decides_of_recoverAttempt (hbase : base.record runId = some v)
    (h : base.transact (recoverAttempt cfg answers runId stepId expected occurredAt) =
      .ok ((), next)) :
    next.definitions = base.definitions ∧
      (∀ other, other ≠ runId → next.Agree other base) ∧
      ∃ attempt v', next.record runId = some v' ∧ v.Decides stepId attempt v' ∧
        attempt.attemptNo = expected.attemptNo ∧ attempt.phase = expected.phase := by
  -- a decision is always committed
  have hcommits : Tx.Ensures (recoverAttempt cfg answers runId stepId expected occurredAt)
      (fun exit _ => exit.Committed) base [] := by
    unfold recoverAttempt
    simp only [Tx.ensures_bind, Tx.ensures_read, Tx.ensures_require, Tx.ensures_lift]
    intro _ _ _ _ _ _ _ _ _ _ answer _
    rcases answer with _ | ⟨_⟩ | _ | _ <;>
      simp only [Tx.ensures_bind, Tx.ensures_pure] <;> exact fun _ _ _ => trivial
  refine Tx.Ensures.transact_committed hcommits (P := fun next =>
    next.definitions = base.definitions ∧ (∀ other, other ≠ runId → next.Agree other base) ∧
      ∃ attempt v', next.record runId = some v' ∧ v.Decides stepId attempt v' ∧
        attempt.attemptNo = expected.attemptNo ∧ attempt.phase = expected.phase) ?_ h
  refine (recoverAttempt_spec hbase).mono fun _ staged hdecided _ => ?_
  obtain ⟨step, row, attempt, v', hturns, _, rfl, hrow, hattempt, hno, hphase, hdecided⟩ := hdecided
  -- it writes to this run alone
  have hown : ∀ write ∈ staged, write.runId? = some runId := fun write hwrite =>
    (hturns.own write hwrite).runId?.trans (congrArg some (runId_of_record hbase))
  refine ⟨definitions_view hown, fun other hother => agree_view fun write hwrite => ?_,
    attempt, v', ?_, ?_, hno, hphase⟩
  · rw [hown write hwrite]
    exact fun h => hother (Option.some.inj h).symm
  · have hrecord := hturns.record (runId_of_record hbase ▸ hbase)
    rwa [runId_of_record hbase] at hrecord
  -- found, not found, or not to be told
  · rcases hdecided with ⟨output, _, changed, result, run, events, hchanged, hsettles, _, rfl⟩ |
      ⟨_, changed, events, hchanged, _, rfl⟩ | ⟨_, run, hrun, _, changed, events, hchanged, _, rfl⟩
    · refine ⟨rfl, ?_, ⟨row, changed, hrow, rfl, hchanged.state_mem (by simp)⟩, hattempt,
        attempt.applied occurredAt result, rfl, by simp [StepAttempt.applied], rfl⟩
      cases hsettles with
      | unaffected => exact Or.inl rfl
      | compensated | compensatedAtOnce | completed => exact Or.inr (by simp)
    · exact ⟨rfl, Or.inl rfl, ⟨row, changed, hrow, rfl, hchanged.state_mem (by simp)⟩, hattempt,
        attempt.closed .notApplied occurredAt, rfl, by simp [StepAttempt.closed], rfl⟩
    · refine ⟨rfl, Or.inr ?_, ⟨row, changed, hrow, rfl, hchanged.state_mem (by simp)⟩, hattempt,
        attempt.closed .manualIntervention occurredAt, rfl, by simp [StepAttempt.closed], rfl⟩
      rcases hrun with rfl | rfl <;> simp

end

/-! ## What is decided is resolved -/

section

variable {v : RunView} {v' : RunRecord} {id : String} {row : StepRun} {attempt : StepAttempt}

/-- Of a step, no attempt but the unresolved one runs. -/
theorem RunView.Restarted.running_eq (hv : v.Restarted)
    (hunresolved : unresolvedAmong row (v.stepAttempts id) = some attempt) {b : StepAttempt}
    (hb : b ∈ v.stepAttempts id) (hrunning : b.status = .running) : b = attempt := by
  obtain ⟨hmem, ⟨hstatus, _⟩ | ⟨hidle, _⟩⟩ := unresolvedAmong_spec hunresolved
  case inr => exact absurd hrunning (hidle b hb)
  obtain ⟨hb, hbId⟩ := RunRecord.mem_stepAttempts.mp hb
  obtain ⟨ha, haId⟩ := RunRecord.mem_stepAttempts.mp hmem
  -- A forward attempt runs with its step, and a compensation is one of a step that succeeded.
  have apart {x y : StepAttempt} (hx : x ∈ v.attempts.rows) (hy : y ∈ v.attempts.rows)
      (hid : x.stepId = y.stepId) (hforward : x.phase = .forward) (hrun : x.status = .running)
      (hcompensation : y.phase = .compensation) : False := by
    have hactive := hv.tracked.active x hx hforward hrun
    rw [hid, hv.sound.compensations y hy hcompensation] at hactive
    exact absurd (Option.some.inj hactive) (by decide)
  have hsame := hbId.trans haId.symm
  cases hbPhase : b.phase with
  | probe => exact absurd hbPhase (hv.sound.phases b hb)
  | forward =>
      cases haPhase : attempt.phase with
      | probe => exact absurd haPhase (hv.sound.phases attempt ha)
      | compensation => exact (apart hb ha hsame hbPhase hrunning haPhase).elim
      | forward =>
          exact hv.sound.keyed.last_unique (hv.logged.finished b hb hrunning)
            (hv.logged.finished attempt ha hstatus) hsame (hbPhase.trans haPhase.symm)
  | compensation =>
      cases haPhase : attempt.phase with
      | probe => exact absurd haPhase (hv.sound.phases attempt ha)
      | forward => exact (apart ha hb hsame.symm haPhase hstatus hbPhase).elim
      | compensation => exact hv.tracked.single b hb attempt ha hbPhase haPhase hrunning hstatus

/-- Once its unresolved attempt is decided, the step is resolved. -/
theorem RunRecord.Decides.resolved (h : v.Decides id attempt v') (hv : v.Restarted)
    (hrow : v.steps id = some row)
    (hunresolved : unresolvedAmong row (v.stepAttempts id) = some attempt) : v'.Resolved id := by
  obtain ⟨_, changed, hrow', hsteps, hchanged⟩ := h.steps
  obtain rfl := Option.some.inj (hrow.symm.trans hrow')
  obtain ⟨hattempt, new, hkey, hended, hattempts⟩ := h.attempts
  obtain ⟨ha, haId⟩ := RunRecord.mem_stepAttempts.mp hattempt
  intro last hlast
  rw [hsteps, Function.update_self] at hlast
  obtain rfl := Option.some.inj hlast
  refine unresolvedAmong_eq_none_iff.mpr ⟨fun b hb hrunning => ?_, fun hunknown => ?_⟩
  · obtain ⟨hb, hbId⟩ := RunRecord.mem_stepAttempts.mp hb
    rcases KeyedTable.mem_put.mp (hattempts ▸ hb) with rfl | ⟨hold, hne⟩
    · exact hended hrunning
    · have hsame := hv.running_eq hunresolved (RunRecord.mem_stepAttempts.mpr ⟨hold, hbId⟩) hrunning
      exact hne (hsame ▸ hkey.symm)
  · exfalso
    rcases hchanged with ⟨_, hstate⟩ | ⟨hother, rfl⟩
    · simp [hunknown] at hstate
    · cases hphase : attempt.phase with
      | forward => exact hother hphase
      | probe => exact hv.sound.phases attempt ha hphase
      | compensation =>
          have hsucceeded := hv.sound.compensations attempt ha hphase
          rw [haId, RunRecord.stateOf, hrow, Option.map_some, hunknown] at hsucceeded
          exact absurd (Option.some.inj hsucceeded) (by decide)

end

/-! ## When a decision is made -/

section

variable {base : MemoryStore} {staged : List Write} {v w : RunRecord} {cfg : Deployment}
  {runId : String} {row : StepRun} {attempt : StepAttempt} {occurredAt : Timestamp}

theorem returns_moveStep {phase : ToolExecutionPhase} {target : StepState}
    {Q : StepRun → List Write → Prop}
    (hmoves : phase = .forward → target ∈ stepTransitions row.state)
    (hforward : phase = .forward → Q (row.moved target) (staged ++
      [.saveStep (row.moved target) row.revision, .appendEvent (row.movedEvent target occurredAt)]))
    (hother : phase ≠ .forward → Q row staged) :
    Tx.Returns (moveStep row phase target occurredAt) Q base staged := by
  unfold moveStep
  by_cases hphase : phase = .forward
  · rw [if_pos hphase]
    have hmoved : row.transition target occurredAt =
        .ok (row.moved target, row.movedEvent target occurredAt) :=
      StepRun.transition_eq_ok_iff.mpr ⟨hmoves hphase, rfl, rfl⟩
    refine Tx.returns_bind <| Tx.returns_lift hmoved <| Tx.returns_bind <|
      returns_saveStep rfl <| Tx.returns_bind <| Tx.returns_stage <| Tx.returns_pure ?_
    simpa using hforward hphase
  · rw [if_neg hphase]
    exact Tx.returns_pure (hother hphase)

/-- An effect found gives the run a state that it may enter, if any. -/
theorem targetAfterApplied_isOk {store : MemoryStore} (hrecord : store.record runId = some w)
    (hstocked : w.Stocked) (stepId : String) (phase : ToolExecutionPhase) :
    ∃ target, targetAfterApplied store w.run w.definition stepId phase = .ok target ∧
      ∀ state, target = some state → state ∈ runTransitions w.run.state := by
  obtain rfl := MemoryStore.runId_of_record hrecord
  obtain ⟨pending, hpending⟩ := RunRecord.Stocked.pendingCompensations_isOk hstocked
    (MemoryStore.keyed_of_record hrecord) w.attempts.rows
  obtain ⟨others, hothers⟩ := allOthersSucceeded_isOk hrecord hstocked stepId
  unfold targetAfterApplied
  rw [MemoryStore.stepRuns_of_record hrecord, MemoryStore.listAttempts_of_record hrecord]
  by_cases hcompensation : w.run.state = .compensating ∧ phase = .compensation
  · cases pending <;> simp [hcompensation, hpending, runTransitions, pure, Except.pure]
  · by_cases hforward : w.run.state = .compensating ∧ phase = .forward
    · simp [hforward, runTransitions, pure, Except.pure]
    · by_cases hrunning : w.run.state = .running
      · cases others <;> simp [hrunning, hothers, runTransitions, pure, Except.pure]
      · simp [hcompensation, hforward, hrunning, pure, Except.pure]

theorem runAfterApplied_isOk {store : MemoryStore} (hrecord : store.record runId = some w)
    (hstocked : w.Stocked) (stepId : String) (phase : ToolExecutionPhase)
    (occurredAt : Timestamp) :
    ∃ change, runAfterApplied store w.run w.definition stepId phase occurredAt = .ok change ∧
      ∀ changed event, change = some (changed, event) → ∃ state, changed = w.run.moved state := by
  obtain ⟨target, htarget, hmoves⟩ := targetAfterApplied_isOk hrecord hstocked stepId phase
  unfold runAfterApplied
  rw [htarget]
  cases target with
  | none => exact ⟨none, rfl, by simp⟩
  | some state =>
      refine ⟨some (w.run.moved state, w.run.movedEvent state occurredAt), ?_, ?_⟩
      · simp [w.run.moves occurredAt (hmoves state rfl)]
      · rintro changed event heq
        obtain ⟨rfl, _⟩ := Prod.ext_iff.mp (Option.some.inj heq)
        exact ⟨state, rfl⟩

theorem returns_saveChangedRun {change : Option (WorkflowRun × AuditEvent)} {run : WorkflowRun}
    {Q : Unit → List Write → Prop}
    (hchange : ∀ changed event, change = some (changed, event) → ∃ state, changed = run.moved state)
    (hnone : change = none → Q () staged)
    (hsome : ∀ state event, change = some (run.moved state, event) →
      Q () (staged ++ [.saveRun (run.moved state) run.revision] ++ [.appendEvent event])) :
    Tx.Returns (saveChangedRun run change) Q base staged := by
  rcases change with _ | ⟨changed, event⟩
  · exact Tx.returns_pure (hnone rfl)
  · obtain ⟨state, rfl⟩ := hchange changed event rfl
    exact Tx.returns_bind <| returns_saveRun rfl <| Tx.returns_stage (hsome state event rfl)

theorem persistApplied_returns {step : StepDefinition} {tool : ToolReference}
    {descriptor : ToolDescriptor} (output : Value) (hbase : base.record v.run.runId = some v)
    (hstocked : v.Stocked) (hrow : v.steps step.id = some row)
    (hattempt : attempt ∈ v.attempts.rows)
    (htool : toolReferenceOf step attempt.phase = some tool)
    (hdescriptor : cfg.registry.descriptorFor tool.name tool.version = .ok descriptor)
    (hmoves : attempt.phase = .forward → StepState.succeeded ∈ stepTransitions row.state) :
    Tx.Returns (persistApplied cfg v.run v.definition step row attempt output occurredAt)
      (fun _ final => ∀ write ∈ final, base.Fits write) base [] := by
  have hkeyed := MemoryStore.keyed_of_record hbase
  obtain ⟨hid, hrowRun⟩ := hkeyed.step hrow
  have hrunId : attempt.runId = v.run.runId := hkeyed.attempt _ hattempt
  unfold persistApplied
  refine Tx.returns_bind <| Tx.returns_require htool <| Tx.returns_bind <|
    Tx.returns_lift hdescriptor <| Tx.returns_bind ?_
  generalize redact cfg.runtime descriptor.sensitiveArgumentPaths output = result
  have hthere := isSome_attempts_get hbase hattempt
  refine returns_saveAttempt hthere <| Tx.returns_bind ?_
  -- What is left to do once the attempt is written, and the step too.
  have rest {completed : StepRun} {events : List AuditEvent} {staged : List Write}
      (hturns : v.Turns staged { v with
        steps := Function.update v.steps step.id (some completed)
        attempts := v.attempts.put (attempt.applied occurredAt result)
        events := v.events ++ events }) (hfits : ∀ write ∈ staged, base.Fits write) :
      Tx.Returns (do
        let changedRun ← (← UowM.read fun store =>
          runAfterApplied store v.run v.definition completed.stepId attempt.phase occurredAt)
        saveChangedRun v.run changedRun
        UowM.appendEvent
          (recoveryEvent .recoveryApplied completed attempt occurredAt "applied"))
        (fun _ final => ∀ write ∈ final, base.Fits write) base staged := by
    obtain ⟨change, hchange, hmoved⟩ := runAfterApplied_isOk (hturns.record hbase)
      (hstocked.update rfl rfl) completed.stepId attempt.phase occurredAt
    have hlast {final : List Write} (hfinal : ∀ write ∈ final, base.Fits write)
        (event : AuditEvent) : ∀ write ∈ final ++ [.appendEvent event], base.Fits write := by
      simp only [List.mem_append, List.mem_singleton]
      rintro write (hwrite | rfl)
      exacts [hfinal write hwrite, .appendEvent _]
    refine Tx.returns_bind <| Tx.returns_read <| Tx.returns_bind <| Tx.returns_lift hchange <|
      Tx.returns_bind <| returns_saveChangedRun hmoved (fun _ => ?_) fun state event _ => ?_
    · exact Tx.returns_stage (hlast hfits _)
    · exact Tx.returns_stage (hlast (MemoryStore.fits_saved hbase hfits (by rfl) event) _)
  refine returns_moveStep hmoves (fun _ => ?_) fun _ => ?_
  · refine @rest _ [row.movedEvent .succeeded occurredAt] _
      ⟨by simp [hrunId, hrowRun], by simp [hid]⟩ ?_
    simp only [List.nil_append, List.cons_append, List.mem_cons, List.not_mem_nil, or_false]
    rintro write (rfl | rfl | rfl)
    · exact .saveAttempt _
    · exact MemoryStore.fits_saveStep hbase hrow rfl rfl
    · exact .appendEvent _
  · refine @rest _ [] _ ⟨by simp [hrunId], by simp [← hrow]⟩ ?_
    simp only [List.nil_append, List.mem_singleton]
    rintro write rfl
    exact .saveAttempt _

theorem persistNotApplied_returns (hbase : base.record v.run.runId = some v) {id : String}
    (hrow : v.steps id = some row) (hattempt : attempt ∈ v.attempts.rows)
    (hmoves : attempt.phase = .forward → StepState.ready ∈ stepTransitions row.state) :
    Tx.Returns (persistNotApplied row attempt occurredAt)
      (fun _ final => ∀ write ∈ final, base.Fits write) base [] := by
  have hthere := isSome_attempts_get hbase hattempt
  unfold persistNotApplied
  refine Tx.returns_bind <| returns_moveStep hmoves (fun _ => ?_) fun _ => ?_ <;>
    refine Tx.returns_bind <| returns_saveAttempt hthere <| Tx.returns_stage ?_
  · simp only [List.nil_append, List.cons_append, List.mem_cons, List.not_mem_nil, or_false]
    rintro write (rfl | rfl | rfl | rfl)
    · exact MemoryStore.fits_saveStep hbase hrow rfl rfl
    · exact .appendEvent _
    · exact .saveAttempt _
    · exact .appendEvent _
  · simp only [List.nil_append, List.cons_append, List.mem_cons, List.not_mem_nil, or_false]
    rintro write (rfl | rfl)
    · exact .saveAttempt _
    · exact .appendEvent _

/-- The run may be handed over unless it has ended. -/
theorem manualIntervention_mem_transitions {state : RunState} (hstate : state ≠ .pending)
    (hopen : ¬ state.Terminal) : RunState.manualIntervention ∈ runTransitions state := by
  cases state <;> first | decide | exact absurd rfl hstate | exact absurd (by decide) hopen

/-- The run is handed over, or it has ended and cannot be. -/
theorem persistManualIntervention_cases (hbase : base.record v.run.runId = some v) {id : String}
    (hrow : v.steps id = some row) (hattempt : attempt ∈ v.attempts.rows)
    (hstate : v.run.state ≠ .pending) (hmoves : attempt.phase = .forward →
      StepState.manualIntervention ∈ stepTransitions row.state) :
    Tx.Returns (persistManualIntervention v.run row attempt occurredAt)
        (fun _ final => ∀ write ∈ final, base.Fits write) base [] ∨
      (v.run.state.Terminal ∧ persistManualIntervention v.run row attempt occurredAt base [] =
        .error (.invalidTransition "run" v.run.state.value
          RunState.manualIntervention.value)) := by
  have hthere := isSome_attempts_get hbase hattempt
  -- an ended run has no way to manual intervention
  by_cases hopen : v.run.state.Terminal
  · refine Or.inr ⟨hopen, ?_⟩
    have hraises : v.run.transition .manualIntervention occurredAt =
        .error (.invalidTransition "run" v.run.state.value RunState.manualIntervention.value) := by
      rw [WorkflowRun.transition, if_neg]
      exact fun h => RunState.not_terminal_of_transition h hopen
    unfold persistManualIntervention
    rw [hraises]
    exact (returns_moveStep hmoves (fun _ => rfl) fun _ => rfl).bind_eq
  · refine Or.inl ?_
    have hmoved : v.run.transition .manualIntervention occurredAt = _ :=
      v.run.moves occurredAt (manualIntervention_mem_transitions hstate hopen)
    unfold persistManualIntervention
    -- in an open one, every write of the unit fits the store
    have hfits {staged : List Write} (hstaged : ∀ write ∈ staged, base.Fits write)
        {run : WorkflowRun} (hrunId : run.runId = v.run.runId) (first second : AuditEvent) :
        ∀ write ∈ staged ++ [.saveRun run v.run.revision] ++ [.saveAttempt
          (attempt.closed .manualIntervention occurredAt)] ++ [.appendEvent first] ++
            [.appendEvent second], base.Fits write := by
      simp only [List.append_assoc, List.mem_append, List.mem_cons, List.not_mem_nil, or_false]
      rintro write (hwrite | rfl | rfl | rfl | rfl)
      · exact hstaged write hwrite
      · exact MemoryStore.fits_saveRun hbase hrunId
      · exact .saveAttempt _
      · exact .appendEvent _
      · exact .appendEvent _
    refine Tx.returns_bind <| returns_moveStep hmoves (fun _ => ?_) fun _ => ?_ <;>
      refine Tx.returns_bind <| Tx.returns_lift hmoved <| Tx.returns_bind <|
        returns_saveRun ?_ <| Tx.returns_bind <| returns_saveAttempt hthere <| Tx.returns_bind <|
          Tx.returns_stage <| Tx.returns_stage <| hfits ?_ ?_ _ _
    case refine_1.refine_1 | refine_2.refine_1 => split <;> rfl
    case refine_1.refine_3 | refine_2.refine_3 => split <;> rfl
    · simp only [List.nil_append, List.mem_cons, List.not_mem_nil, or_false]
      rintro write (rfl | rfl)
      exacts [MemoryStore.fits_saveStep hbase hrow rfl rfl, .appendEvent _]
    · exact fun write hwrite => absurd hwrite List.not_mem_nil

end

/-! ## Totality -/

section

variable {base : MemoryStore} {v : RunView} {cfg : Deployment} {runId : String}
  {step : StepDefinition} {row : StepRun} {attempt : StepAttempt}

/-- A forward attempt that is unresolved leaves its step in a state to go on from. -/
theorem RunView.Restarted.moves (hv : v.Restarted) {id : String} (hrow : v.steps id = some row)
    (hunresolved : unresolvedAmong row (v.stepAttempts id) = some attempt) {target : StepState}
    (htarget : target ∈ [.succeeded, .ready, .manualIntervention])
    (hforward : attempt.phase = .forward) : target ∈ stepTransitions row.state := by
  have hstate : row.state = .running ∨ row.state = .resultUnknown := by
    obtain ⟨hmem, ⟨hrunning, _⟩ | ⟨_, hunknown, _⟩⟩ := unresolvedAmong_spec hunresolved
    · obtain ⟨ha, hid⟩ := RunRecord.mem_stepAttempts.mp hmem
      have hactive := hv.tracked.active attempt ha hforward hrunning
      rw [hid, RunRecord.stateOf, hrow] at hactive
      exact Or.inl (Option.some.inj hactive)
    · exact Or.inr hunknown
  simp only [List.mem_cons, List.not_mem_nil, or_false] at htarget
  rcases hstate with hstate | hstate <;> rcases htarget with rfl | rfl | rfl <;>
    rw [hstate] <;> decide

theorem descriptorFor_isOk {name version : String}
    (h : cfg.registry.contains name version) :
    ∃ descriptor, cfg.registry.descriptorFor name version = .ok descriptor := by
  obtain ⟨descriptor, hdescriptor⟩ := Option.isSome_iff_exists.mp h
  exact ⟨descriptor, by rw [ToolRegistry.descriptorFor, hdescriptor]⟩

theorem StepDefinition.Accepted.descriptor (h : step.Accepted cfg) {phase : ToolExecutionPhase}
    {tool : ToolReference} (htool : toolReferenceOf step phase = some tool) :
    ∃ descriptor, cfg.registry.descriptorFor tool.name tool.version = .ok descriptor := by
  refine descriptorFor_isOk ?_
  cases phase with
  | forward =>
      obtain rfl := Option.some.inj htool
      exact h.tool
  | compensation | probe => exact h.compensation tool htool

/-- The probe of a registered tool raises nothing, and finds an effect only through a tool. -/
theorem StepDefinition.Accepted.probe_isOk (h : step.Accepted cfg) (answers : ProbeAnswers)
    (attempt : StepAttempt) (now : Timestamp) :
    ∃ answer, probe cfg answers step attempt now = .ok answer ∧
      (answer = none ∨ ∃ tool, toolReferenceOf step attempt.phase = some tool) := by
  unfold probe
  cases htool : toolReferenceOf step attempt.phase with
  | none => exact ⟨none, rfl, Or.inl rfl⟩
  | some tool =>
      obtain ⟨descriptor, hdescriptor⟩ := h.descriptor htool
      simp only [hdescriptor, Except.bind_of_eq_ok rfl]
      refine Exists.imp (fun answer hanswer => ⟨hanswer, Or.inr ⟨tool, rfl⟩⟩) ?_
      split
      · exact ⟨none, rfl⟩
      split
      case h_2 => exact ⟨none, rfl⟩
      split <;> exact ⟨_, rfl⟩

/-- A unit of work that ends with a decision is committed with it, or raises what it does. -/
theorem MemoryStore.transact_commits {body : UowM (Exit Unit)} {decision : UowM Unit}
    (heq : body base [] = (do decision; return .commit () : UowM (Exit Unit)) base [])
    (h : Tx.Returns decision (fun _ final => ∀ write ∈ final, base.Fits write) base [])
    (hunambiguous : base.Unambiguous) : ∃ next, base.transact body = .ok ((), next) := by
  obtain ⟨_, staged, hdecision, hfits⟩ := h
  have hbody : body base [] = .ok (.commit (), staged) := by
    rw [heq]
    simp [bind, hdecision, pure]
  refine ⟨UowM.view base staged, ?_⟩
  simp only [transact, Tx.transact, hbody, validate_of_fits hfits hunambiguous]

theorem MemoryStore.transact_raises {body : UowM (Exit Unit)} {decision : UowM Unit} {e : Error}
    (heq : body base [] = (do decision; return .commit () : UowM (Exit Unit)) base [])
    (h : decision base [] = .error e) : base.transact body = .error e := by
  have hbody : body base [] = .error e := by
    rw [heq]
    simp [bind, h]
  simp only [transact, Tx.transact, hbody]

/-- In a reachable state recovery decides every unresolved attempt, unless nothing is known
about it and its run has already ended. -/
theorem recoverAttempt_cases (hbase : base.record runId = some v.toRunRecord) (hv : v.Restarted)
    (hstocked : v.Stocked) (haccepted : ∀ step ∈ v.definition.steps, step.Accepted cfg)
    (hunambiguous : base.Unambiguous) (hstep : step ∈ v.definition.steps)
    (hrow : v.steps step.id = some row)
    (hunresolved : unresolvedAmong row (v.stepAttempts step.id) = some attempt)
    (answers : ProbeAnswers) (occurredAt : Timestamp) :
    (∃ next, base.transact (recoverAttempt cfg answers runId step.id attempt occurredAt) =
        .ok ((), next)) ∨
      (v.run.state.Terminal ∧
        base.transact (recoverAttempt cfg answers runId step.id attempt occurredAt) =
          .error (.invalidTransition "run" v.run.state.value
            RunState.manualIntervention.value)) := by
  obtain rfl := MemoryStore.runId_of_record hbase
  have hattempt := (unresolvedAmong_spec hunresolved).1
  obtain ⟨ha, hid⟩ := RunRecord.mem_stepAttempts.mp hattempt
  have hstate : v.run.state ≠ .pending := fun hpending => by
    simp [hv.sound.fresh hpending] at ha
  obtain ⟨answer, hprobe, htool⟩ := (haccepted step hstep).probe_isOk answers attempt occurredAt
  have hfind : ((v.stepAttempts step.id).find? fun other =>
      other.attemptNo = attempt.attemptNo ∧ other.phase = attempt.phase) = some attempt := by
    cases hfind : (v.stepAttempts step.id).find? fun other =>
        other.attemptNo = attempt.attemptNo ∧ other.phase = attempt.phase with
    | none => simpa using List.find?_eq_none.mp hfind attempt hattempt
    | some other =>
        obtain ⟨hno, hphase⟩ : other.attemptNo = attempt.attemptNo ∧
          other.phase = attempt.phase := by simpa using List.find?_some hfind
        obtain ⟨hother, hotherId⟩ :=
          RunRecord.mem_stepAttempts.mp (List.mem_of_find?_eq_some hfind)
        rw [hv.sound.keyed.attempt_eq hother ha (hotherId.trans hid.symm) hno hphase]
  -- The rows are there, so that the answer decides.
  have heq {unit : UowM Unit} (hunit :
      (∃ output, answer = some (.found output) ∧
        unit = persistApplied cfg v.run v.definition step row attempt output occurredAt) ∨
      (answer = some .notFound ∧ unit = persistNotApplied row attempt occurredAt) ∨
      ((answer = none ∨ ∃ reason, answer = some (.inconclusive reason)) ∧
        unit = persistManualIntervention v.run row attempt occurredAt)) :
      recoverAttempt cfg answers v.run.runId step.id attempt occurredAt base [] =
        (unit >>= fun _ => pure (.commit ()) : UowM (Exit Unit)) base [] := by
    unfold recoverAttempt
    refine Tx.Returns.bind_eq <| Tx.returns_read <| Tx.Returns.bind_eq <|
      Tx.returns_require (MemoryStore.runs_get_of_record hbase) <| Tx.Returns.bind_eq <|
      Tx.returns_read <| Tx.Returns.bind_eq <|
      Tx.returns_require (MemoryStore.definitionOf_of_record hbase) <| Tx.Returns.bind_eq <|
      Tx.returns_require (v.definition.find_step hstep rfl) <| Tx.Returns.bind_eq <|
      Tx.returns_read <| Tx.Returns.bind_eq <|
      Tx.returns_require ((MemoryStore.getStep_of_record hbase _).trans hrow) <|
      Tx.Returns.bind_eq <| Tx.returns_read <| Tx.Returns.bind_eq <|
      Tx.returns_require (a := attempt) ?_ <| Tx.Returns.bind_eq <| Tx.returns_lift hprobe ?_
    · rw [Tx.view_nil, MemoryStore.listStepAttempts_of_record hbase]
      exact hfind
    · rcases hunit with ⟨output, rfl, rfl⟩ | ⟨rfl, rfl⟩ | ⟨rfl | ⟨reason, rfl⟩, rfl⟩ <;> rfl
  have hfound {target : StepState} (htarget : target ∈ [.succeeded, .ready, .manualIntervention]) :
      attempt.phase = .forward → target ∈ stepTransitions row.state :=
    hv.moves hrow hunresolved htarget
  have hmanual (hunknown : answer = none ∨ ∃ reason, answer = some (.inconclusive reason)) :
      (∃ next, base.transact (recoverAttempt cfg answers v.run.runId step.id attempt occurredAt) =
        .ok ((), next)) ∨
      (v.run.state.Terminal ∧
        base.transact (recoverAttempt cfg answers v.run.runId step.id attempt occurredAt) =
          .error (.invalidTransition "run" v.run.state.value
            RunState.manualIntervention.value)) := by
    have heq := heq (Or.inr (Or.inr ⟨hunknown, rfl⟩))
    rcases persistManualIntervention_cases hbase hrow ha hstate (hfound (by simp)) with
      hreturns | ⟨hterminal, hraises⟩
    · exact Or.inl (MemoryStore.transact_commits heq hreturns hunambiguous)
    · exact Or.inr ⟨hterminal, MemoryStore.transact_raises heq hraises⟩
  cases hanswer : answer with
  | none => exact hmanual (Or.inl hanswer)
  | some found =>
      cases found with
      | found output =>
          obtain ⟨tool, htool⟩ := htool.resolve_left (by simp [hanswer])
          obtain ⟨descriptor, hdescriptor⟩ := (haccepted step hstep).descriptor htool
          exact Or.inl (MemoryStore.transact_commits (heq (Or.inl ⟨output, hanswer, rfl⟩))
            (persistApplied_returns output hbase hstocked hrow ha htool hdescriptor
              (hfound (by simp))) hunambiguous)
      | notFound =>
          exact Or.inl (MemoryStore.transact_commits (heq (Or.inr (Or.inl ⟨hanswer, rfl⟩)))
            (persistNotApplied_returns hbase hrow ha (hfound (by simp))) hunambiguous)
      | inconclusive => exact hmanual (Or.inr ⟨_, hanswer⟩)

end

end ChangePilot
