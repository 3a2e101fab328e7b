import ChangePilot.System.RunMoves

/-!
# What each unit of work makes of its run

One specification for each unit of work: the writes it stages are the run's own,
and turn its record into one that is given in terms of the old (`RunRecord.Turns`).

A unit is taken apart by the rules of `Tx.Ensures`, with the record `v` of its run in the
store it began with: every read gives a part of `v`, and every guard a fact about `v`.
A unit that walks through a list (`promoteDueSteps`, `promotePendingSteps`,
`invalidateOthers`) has a specification by induction over that list, whose invariant
(`RunRecord.Promotes`, `RunRecord.Invalidates`) compares the record reached so far with `v`.
The units that persist an outcome share what they make of the run:

* `settleRun_spec`: after a forward outcome, `RunRecord.Settles`;
* `runAfterApplied_eq_ok`: after a probe that found the effect, `RunRecord.AppliedSettles`;
* `persistManualIntervention_spec`: after an outcome that cannot be told.

`recoverAttempt_spec` puts the last two together by the probe's answer.
-/

namespace ChangePilot

/-- The staged writes are the run's own and turn its record into `v'`. -/
structure RunRecord.Turns (v : RunRecord) (staged : List Write) (v' : RunRecord) : Prop where
  own : ∀ write ∈ staged, write.Belongs v.run
  result : staged.foldl RunRecord.apply v = v'

theorem RunRecord.Turns.record {base : MemoryStore} {runId : String} {v w : RunRecord}
    {staged : List Write} (h : v.Turns staged w) (hbase : base.record runId = some v) :
    (UowM.view base staged).record runId = some w := by
  rw [MemoryStore.record_view hbase h.own, h.result]

theorem RunRecord.Turns.append {v w w' : RunRecord} {staged : List Write} (h : v.Turns staged w)
    {more : List Write} (hown : ∀ write ∈ more, write.Belongs v.run)
    (hresult : more.foldl RunRecord.apply w = w') : v.Turns (staged ++ more) w' where
  own write hwrite := (List.mem_append.mp hwrite).elim (h.own write) (hown write)
  result := by rw [List.foldl_append, h.result, hresult]

@[simp] theorem MemoryStore.getStep_putRun (store : MemoryStore) (run : WorkflowRun) :
    (store.putRun run).getStep = store.getStep := rfl

@[simp] theorem MemoryStore.getStep_appendEvent (store : MemoryStore) (event : AuditEvent) :
    (store.appendEvent event).getStep = store.getStep := rfl

section

variable {base : MemoryStore} {v : RunRecord}

/-! ## Starting -/

theorem commitAttemptStarted_forward {attempt : StepAttempt}
    (h : base.record attempt.runId = some v) (hphase : attempt.phase = .forward) :
    Tx.Ensures (commitAttemptStarted attempt) (fun _ staged => ∃ run row events,
      v.Turns staged
        { v with
          run := run
          steps := Function.update v.steps attempt.stepId (some (row.moved .running))
          attempts := v.attempts.put attempt
          events := v.events ++ events ++ [.toolAttemptStarted attempt.runId attempt.stepId
            attempt.attemptId attempt.attemptNo .forward attempt.startedAt .running
            (row.revision + 1)] } ∧
      ((v.run.state = .pending ∧ run = v.run.moved .running) ∨
        (v.run.state = .running ∧ run = v.run)) ∧
      v.steps attempt.stepId = some row ∧ row.state = .ready ∧
      ∀ event ∈ events, ¬ event.Gate) base [] := by
  have hrunId := MemoryStore.runId_of_record h
  -- only a ready step starts running
  have ready {row : StepRun} (htransition : StepState.running ∈ stepTransitions row.state) :
      row.state = .ready := by
    cases hstate : row.state <;> simp [hstate, stepTransitions] at htransition ⊢
  unfold commitAttemptStarted enterExecution
  simp [MemoryStore.runs_get_of_record h, MemoryStore.getStep_of_record h, hphase]
  refine ⟨fun hpending _ row hrow htransition _ => ?_, fun _ hrunning row hrow htransition _ => ?_⟩
  -- the first attempt of a run starts the run too
  · obtain ⟨hid, hrow'⟩ := (MemoryStore.keyed_of_record h).step hrow
    refine ⟨v.run.moved .running, row, [v.run.movedEvent .running attempt.startedAt,
      row.movedEvent .running attempt.startedAt], ⟨?_, ?_⟩, Or.inl ⟨hpending, rfl⟩, hrow,
      ready htransition, by simp⟩
    · simp [hrow', hrunId]
    · simp [hid]
  · obtain ⟨hid, hrow'⟩ := (MemoryStore.keyed_of_record h).step hrow
    refine ⟨v.run, row, [row.movedEvent .running attempt.startedAt], ⟨?_, ?_⟩,
      Or.inr ⟨hrunning, rfl⟩, hrow, ready htransition, by simp⟩
    · simp [hrow', hrunId]
    · simp [hid]

theorem commitAttemptStarted_compensation {attempt : StepAttempt}
    (h : base.record attempt.runId = some v) (hphase : attempt.phase = .compensation) :
    Tx.Ensures (commitAttemptStarted attempt) (fun _ staged => ∃ events,
      v.Turns staged
        { v with
          attempts := v.attempts.put attempt
          events := v.events ++ events } ∧
      v.run.state = .compensating ∧ ∀ event ∈ events, ¬ event.Gate) base [] := by
  have hrunId := MemoryStore.runId_of_record h
  unfold commitAttemptStarted enterExecution
  simp [MemoryStore.runs_get_of_record h, MemoryStore.getStep_of_record h, hphase]
  intro hstate row hrow _
  refine ⟨[.toolAttemptStarted attempt.runId attempt.stepId attempt.attemptId attempt.attemptNo
    .compensation attempt.startedAt row.state row.revision], ⟨?_, ?_⟩, hstate, ?_⟩
  · simp [hrunId]
  · simp
  · simp [AuditEvent.Gate, AuditEvent.toolAttemptStarted]

/-! ## Promotion -/

/-- The steps of `v'` are those of `v`, some of them moved on to be ready for the
reason `p`. -/
def RunRecord.Promotes (p : String → StepRun → Prop) (v v' : RunRecord) : Prop :=
  ∃ steps events, v' = { v with steps := steps, events := v.events ++ events } ∧
    (∀ event ∈ events, ¬ event.Gate) ∧
      ∀ id, steps id = v.steps id ∨ ∃ row, v.steps id = some row ∧ p id row ∧
        steps id = some (row.moved .ready)

theorem RunRecord.Promotes.refl {p : String → StepRun → Prop} (v : RunRecord) :
    Promotes p v v :=
  ⟨v.steps, [], by simp, by simp, fun _ => Or.inl rfl⟩

/-- One more step moves on. -/
theorem RunRecord.Promotes.stage {p : String → StepRun → Prop} (hkeyed : v.Keyed)
    {staged : List Write} (hown : ∀ write ∈ staged, write.Belongs v.run)
    (h : Promotes p v (staged.foldl RunRecord.apply v)) {row : StepRun}
    (hrow : v.steps row.stepId = some row) (hp : p row.stepId row) (occurredAt : Timestamp)
    (expected : ℕ) :
    (∀ write ∈ staged ++ [Write.saveStep (row.moved .ready) expected,
        Write.appendEvent (row.movedEvent .ready occurredAt)], write.Belongs v.run) ∧
      Promotes p v ((staged ++ [Write.saveStep (row.moved .ready) expected,
        Write.appendEvent (row.movedEvent .ready occurredAt)]).foldl RunRecord.apply v) := by
  obtain ⟨steps, events, hcurrent, hevents, hsteps⟩ := h
  constructor
  · intro write hwrite
    rcases List.mem_append.mp hwrite with hwrite | hwrite
    · exact hown write hwrite
    · rcases List.mem_pair.mp hwrite with rfl | rfl <;> simp [(hkeyed.step hrow).2]
  · refine ⟨Function.update steps row.stepId (some (row.moved .ready)),
      events ++ [row.movedEvent .ready occurredAt], by simp [hcurrent], ?_, fun id => ?_⟩
    · intro event hevent
      rcases List.mem_append.mp hevent with hevent | hevent
      · exact hevents event hevent
      · simp [List.mem_singleton.mp hevent]
    · by_cases hid : id = row.stepId
      · subst hid
        exact Or.inr ⟨row, hrow, hp, by simp⟩
      · simpa [hid] using hsteps id

/-- A retry whose instant has come by `now`. -/
def RunRecord.RetryDue (v : RunRecord) (now : Timestamp) (id : String) (row : StepRun) : Prop :=
  row.state = .retryWait ∧ ∃ last next, (v.stepAttempts id).getLast? = some last ∧
    last.nextAttemptAt = some next ∧ next ≤ now

/-- A pending step whose dependencies have succeeded. -/
def RunRecord.DependenciesMet (v : RunRecord) (id : String) (row : StepRun) : Prop :=
  row.state = .pending ∧ ∃ step ∈ v.definition.steps, step.id = id ∧
    ∀ d ∈ step.dependsOn, v.stateOf d = some .succeeded

theorem promoteDueSteps_spec {runId : String} {now occurredAt : Timestamp}
    (h : base.record runId = some v) (steps : List StepDefinition) :
    ∀ {staged : List Write}, (∀ write ∈ staged, write.Belongs v.run) →
      RunRecord.Promotes (v.RetryDue now) v (staged.foldl RunRecord.apply v) →
      Tx.Ensures (promoteDueSteps runId now occurredAt steps) (fun _ final =>
        ∃ v', v.Turns final v' ∧ RunRecord.Promotes (v.RetryDue now) v v') base staged := by
  induction steps with
  | nil =>
      intro staged hown hcurrent
      simpa [promoteDueSteps] using ⟨_, ⟨hown, rfl⟩, hcurrent⟩
  -- each step of the definition, with what the earlier ones have staged
  | cons step rest ih =>
      intro staged hown hcurrent
      have hrecord := MemoryStore.record_view h hown
      have hkeyed := MemoryStore.keyed_of_record h
      obtain ⟨current, events, hview, _, hsteps⟩ := id hcurrent
      rw [hview] at hrecord
      unfold promoteDueSteps
      simp only [Tx.ensures_bind, Tx.ensures_read]
      rw [MemoryStore.getStep_of_record hrecord]
      cases hrow : current step.id with
      | none => simpa [hrow] using ih hown hcurrent
      | some row =>
          simp only [hrow, Tx.ensures_ite]
          refine ⟨fun _ => ih hown hcurrent, fun hstate => ?_⟩
          have hstate : row.state = .retryWait := not_not.mp hstate
          -- a step that waits still was not promoted by the steps before it
          have hrow₀ : v.steps step.id = some row := by
            rcases hsteps step.id with hsame | ⟨_, _, _, hready⟩
            · exact hsame.symm.trans hrow
            · rw [hready] at hrow
              obtain rfl := Option.some.inj hrow
              simp at hstate
          simp only [Tx.ensures_bind, Tx.ensures_read]
          rw [MemoryStore.listStepAttempts_of_record hrecord]
          split
          case h_1 => exact ih hown hcurrent
          case h_2 next hnext =>
            simp only [Tx.ensures_ite]
            refine ⟨fun _ => ih hown hcurrent, fun hdue => ?_⟩
            simp only [Tx.ensures_bind, Tx.ensures_lift, Prod.forall, StepRun.transition_eq_ok_iff,
              UowM.ensures_saveStep, Tx.ensures_stage, Tx.ensures_pure]
            rintro _ _ ⟨_, rfl, rfl⟩ _
            -- the time has come: the last attempt says so
            obtain ⟨last, hlast, hnext⟩ := Option.bind_eq_some_iff.mp hnext
            obtain ⟨hid, _⟩ := hkeyed.step hrow₀
            obtain ⟨hown, hcurrent⟩ := hcurrent.stage hkeyed hown (hid.symm ▸ hrow₀)
              (hid.symm ▸ ⟨hstate, last, next, hlast, hnext, not_lt.mp hdue⟩) occurredAt
              row.revision
            rw [List.append_assoc]
            exact ih hown hcurrent

theorem promoteDueRetries_spec {runId : String} {now occurredAt : Timestamp}
    (h : base.record runId = some v) :
    Tx.Ensures (promoteDueRetries runId now occurredAt) (fun exit staged =>
      match exit with
      | .commit () => ∃ v', v.Turns staged v' ∧ RunRecord.Promotes (v.RetryDue now) v v'
      | .leave () => True) base [] := by
  unfold promoteDueRetries
  simp only [Tx.ensures_bind, Tx.ensures_read, Tx.view_nil, MemoryStore.runs_get_of_record h,
    MemoryStore.definitionOf_of_record h, Tx.ensures_ite, Tx.ensures_pure]
  refine ⟨fun _ => trivial, fun _ => ?_⟩
  refine (promoteDueSteps_spec h v.definition.steps (by simp) (.refl v)).mono ?_
  intro changed staged hpromoted
  cases changed
  · trivial
  · exact hpromoted

theorem promotePendingSteps_spec {runId : String} {occurredAt : Timestamp}
    (h : base.record runId = some v) (steps : List StepDefinition)
    (hready : ∀ step ∈ steps, step ∈ v.definition.steps ∧ isReady v.stepRuns step) :
    ∀ {staged : List Write}, (∀ write ∈ staged, write.Belongs v.run) →
      RunRecord.Promotes v.DependenciesMet v (staged.foldl RunRecord.apply v) →
      Tx.Ensures (promotePendingSteps v.stepRuns occurredAt steps) (fun _ final =>
        ∃ v', v.Turns final v' ∧ RunRecord.Promotes v.DependenciesMet v v') base staged := by
  have hkeyed := MemoryStore.keyed_of_record h
  induction steps with
  | nil =>
      intro staged hown hcurrent
      simpa [promotePendingSteps] using ⟨_, ⟨hown, rfl⟩, hcurrent⟩
  | cons step rest ih =>
      intro staged hown hcurrent
      have hrest : ∀ step ∈ rest, step ∈ v.definition.steps ∧ isReady v.stepRuns step :=
        fun other hother => hready other (List.mem_cons_of_mem _ hother)
      obtain ⟨hstep, _, hdependencies⟩ := hready step List.mem_cons_self
      unfold promotePendingSteps
      simp only [Tx.ensures_bind, Tx.ensures_require, Tx.ensures_ite]
      -- the step's row is pending
      refine fun row hfind => ⟨fun _ => ih hrest hown hcurrent, fun hstate => ?_⟩
      have hrow := hkeyed.steps_of_mem_stepRuns (List.mem_of_find?_eq_some hfind)
      have hid : row.stepId = step.id := by simpa using List.find?_some hfind
      simp only [Tx.ensures_lift, Prod.forall, StepRun.transition_eq_ok_iff,
        UowM.ensures_saveStep, Tx.ensures_stage, Tx.ensures_pure]
      rintro _ _ ⟨_, rfl, rfl⟩ _
      -- its dependencies have succeeded in the record the unit began with
      obtain ⟨hown, hcurrent⟩ := hcurrent.stage hkeyed hown hrow
        ⟨not_not.mp hstate, step, hstep, hid.symm, fun d hd =>
          hkeyed.stateOf_of_stepStateIs (hdependencies d hd)⟩ occurredAt row.revision
      rw [List.append_assoc]
      exact ih hrest hown hcurrent

theorem promoteDependencyReadySteps_spec {runId : String} {occurredAt : Timestamp}
    (h : base.record runId = some v) :
    Tx.Ensures (promoteDependencyReadySteps runId occurredAt) (fun exit staged =>
      match exit with
      | .commit () => ∃ v', v.Turns staged v' ∧ RunRecord.Promotes v.DependenciesMet v v'
      | .leave () => True) base [] := by
  unfold promoteDependencyReadySteps
  simp only [Tx.ensures_bind, Tx.ensures_read, Tx.view_nil, MemoryStore.runs_get_of_record h,
    MemoryStore.definitionOf_of_record h, Tx.ensures_ite, Tx.ensures_pure, Tx.ensures_lift,
    MemoryStore.stepRuns_of_record h]
  refine ⟨fun _ => trivial, fun _ ready hready => ?_⟩
  refine (promotePendingSteps_spec h ready (fun step hstep => (mem_readySteps hready).mp hstep)
    (by simp) (.refl v)).mono ?_
  intro changed staged hpromoted
  cases changed
  · trivial
  · exact hpromoted

/-! ## Outcomes -/

theorem anyStep_eq_ok {store : MemoryStore} {runId : String} {p : StepState → String → Bool}
    {steps : List StepDefinition} {answer : Bool} (h : anyStep store runId p steps = .ok answer) :
    if answer then
      ∃ step ∈ steps, ∃ row, store.getStep runId step.id = some row ∧ p row.state step.id
    else ∀ step ∈ steps, ∃ row, store.getStep runId step.id = some row ∧
      ¬ p row.state step.id := by
  induction steps with
  | nil =>
      obtain rfl : false = answer := by simpa [anyStep] using h
      simp
  | cons step rest ih =>
      unfold anyStep stepStateOf at h
      cases hrow : store.getStep runId step.id with
      | none => simp [hrow, bind, Except.bind] at h
      | some row =>
          simp only [hrow, bind, Except.bind] at h
          split at h
          case isTrue hp =>
            obtain rfl : true = answer := by simpa [pure, Except.pure] using h
            exact ⟨step, List.mem_cons_self, row, hrow, hp⟩
          case isFalse hp =>
            have ih := ih h
            cases answer with
            | true =>
                obtain ⟨other, hother, hfound⟩ := ih
                exact ⟨other, List.mem_cons_of_mem _ hother, hfound⟩
            | false => exact List.forall_mem_cons.mpr ⟨⟨row, hrow, hp⟩, ih⟩

theorem allOthersSucceeded_eq_ok {store : MemoryStore} {runId stepId : String} {v : RunRecord}
    (hrecord : store.record runId = some v) {answer : Bool}
    (h : allOthersSucceeded store runId stepId v.definition.steps = .ok answer) :
    answer ↔ v.AllOthersSucceeded stepId := by
  simp only [allOthersSucceeded, Except.bind_eq_ok_iff, Except.pure_eq_ok_iff] at h
  obtain ⟨someOtherOpen, hany, rfl⟩ := h
  have hspec := anyStep_eq_ok hany
  simp only [MemoryStore.getStep_of_record hrecord, List.mem_filter] at hspec
  cases someOtherOpen with
  | true =>
      obtain ⟨step, hstep, row, hrow, hopen⟩ := hspec
      simp only [Bool.not_true, Bool.false_eq_true, false_iff]
      intro hall
      have hstate := hall step hstep.1 (by simpa using hstep.2)
      simp [RunRecord.stateOf, hrow] at hstate
      simp [hstate] at hopen
  | false =>
      simp only [Bool.not_false, true_iff]
      intro step hstep hid
      obtain ⟨row, hrow, hdone⟩ := hspec step ⟨hstep, by simpa using hid⟩
      exact RunRecord.stateOf_eq_some_iff.mpr ⟨row, hrow, by simpa using hdone⟩

/-- The events do not matter to what becomes of the run. -/
theorem RunRecord.Settles.of_events {v : RunRecord} {events : List AuditEvent}
    {nextState : StepState} {outcome : ExecutionOutcome} {run : WorkflowRun}
    (h : ({ v with events := events } : RunRecord).Settles nextState outcome run) :
    v.Settles nextState outcome run := by
  cases h with
  | unaffected hsucceeded hfailed => exact .unaffected hsucceeded hfailed
  | completed hrunning hsucceeded hothers => exact .completed hrunning hsucceeded hothers
  | failed hrunning hfailed hnone => exact .failed hrunning hfailed hnone
  | compensating hrunning hfailed hsome => exact .compensating hrunning hfailed hsome

theorem settleRun_spec {w : RunRecord} {staged : List Write} {nextState : StepState}
    {outcome : ExecutionOutcome} {completedAt : Timestamp}
    (hbase : base.record outcome.runId = some v) (hcurrent : v.Turns staged w)
    (hrun : w.run = v.run) :
    Tx.Ensures (settleRun w.run w.definition nextState outcome completedAt) (fun _ final =>
      ∃ run events, v.Turns final { w with run := run, events := w.events ++ events } ∧
        w.Settles nextState outcome run ∧ ∀ event ∈ events, ¬ event.Gate) base staged := by
  have hrecord := hcurrent.record hbase
  -- most outcomes leave the run alone
  have unchanged (hsettles : w.Settles nextState outcome w.run) :
      ∃ run events, v.Turns staged { w with run := run, events := w.events ++ events } ∧
        w.Settles nextState outcome run ∧ ∀ event ∈ events, ¬ event.Gate :=
    ⟨w.run, [], by simpa using hcurrent, hsettles, by simp⟩
  unfold settleRun
  simp only [Tx.ensures_ite, Tx.ensures_bind, Tx.ensures_read, Tx.ensures_lift, Tx.ensures_pure,
    Prod.forall, WorkflowRun.transition_eq_ok_iff, UowM.ensures_saveRun, Tx.ensures_stage]
  constructor
  -- the step succeeded: the run does if all the others have
  · rintro ⟨hrunning, hsucceeded⟩ others hothers
    refine ⟨fun hall => ?_, fun hopen => ?_⟩
    · rintro _ _ ⟨_, rfl, rfl⟩ _
      refine ⟨_, [w.run.movedEvent .succeeded completedAt], ?_,
        .completed hrunning hsucceeded ((allOthersSucceeded_eq_ok hrecord hothers).mp hall),
        by simp⟩
      rw [List.append_assoc]
      exact hcurrent.append (by simp [hrun]) (by simp)
    · refine unchanged (.unaffected (fun _ _ hall => hopen ?_) fun _ => by simp [hsucceeded])
      exact (allOthersSucceeded_eq_ok hrecord hothers).mpr hall
  · intro hnot
    constructor
    -- the step failed: the run compensates if some effect is recorded
    · rintro ⟨hrunning, hfailed⟩
      rw [MemoryStore.stepRuns_of_record hrecord, MemoryStore.listAttempts_of_record hrecord]
      rintro effects heffects _ _ ⟨_, rfl, rfl⟩ _
      rw [List.append_assoc]
      cases effects with
      | nil =>
          exact ⟨_, [w.run.movedEvent .failed completedAt],
            hcurrent.append (by simp [hrun]) (by simp), .failed hrunning hfailed heffects, by simp⟩
      | cons first rest =>
          exact ⟨_, [w.run.movedEvent .compensating completedAt],
            hcurrent.append (by simp [hrun]) (by simp), .compensating hrunning hfailed heffects,
            by simp⟩
    · intro hnotFailed
      exact unchanged (.unaffected (fun hrunning hsucceeded => absurd ⟨hrunning, hsucceeded⟩ hnot)
        fun hrunning hfailed => hnotFailed ⟨hrunning, hfailed⟩)

/-- A forward outcome is written into its step, attempt and run. -/
def RunRecord.ForwardOutcome (v : RunRecord) (outcome : ExecutionOutcome)
    (completedAt : Timestamp) (v' : RunRecord) : Prop :=
  ∃ step row attempt nextState nextAttemptAt result run events,
    step ∈ v.definition.steps ∧ step.id = outcome.stepId ∧
    v.steps outcome.stepId = some row ∧
    v.findAttempt outcome.stepId outcome.attemptNo = some attempt ∧
    attempt.phase ≠ .compensation ∧
    forwardResult step.retry outcome completedAt = .ok (nextState, nextAttemptAt) ∧
    nextState ∈ stepTransitions row.state ∧
    (v.recorded outcome.stepId (v.finishedStep row nextState attempt.idempotencyKey)
      (attempt.completedWith outcome completedAt nextAttemptAt result)).Settles
        nextState outcome run ∧
    (∀ event ∈ events, ¬ event.Gate) ∧
    v' = { v with
      run := run
      steps := Function.update v.steps outcome.stepId
        (some (v.finishedStep row nextState attempt.idempotencyKey))
      attempts := v.attempts.put
        (attempt.completedWith outcome completedAt nextAttemptAt result)
      events := v.events ++ events }

/-- The outcome of a compensation is written into its attempt and run. -/
def RunRecord.CompensationOutcome (v : RunRecord) (outcome : ExecutionOutcome)
    (completedAt : Timestamp) (v' : RunRecord) : Prop :=
  ∃ attempt result run events,
    v.findAttempt outcome.stepId outcome.attemptNo = some attempt ∧
    attempt.phase = .compensation ∧
    (v.putAttempt (attempt.completedWith outcome completedAt none result)).CompensationSettles
      outcome run ∧
    (∀ event ∈ events, ¬ event.Gate) ∧
    v' = { v with
      run := run
      attempts := v.attempts.put (attempt.completedWith outcome completedAt none result)
      events := v.events ++ events }

theorem persistCompensationOutcome_spec {cfg : Deployment} {row : StepRun}
    {attempt : StepAttempt} {outcome : ExecutionOutcome} {completedAt : Timestamp}
    {sensitivePaths : List (List String)} (hbase : base.record outcome.runId = some v)
    (hattempt : v.findAttempt outcome.stepId outcome.attemptNo = some attempt)
    (hphase : attempt.phase = .compensation) :
    Tx.Ensures (persistCompensationOutcome cfg v.run v.definition row attempt outcome completedAt
      sensitivePaths) (fun _ staged =>
        ∃ v', v.Turns staged v' ∧ v.CompensationOutcome outcome completedAt v') base [] := by
  have hrunId : attempt.runId = v.run.runId :=
    (MemoryStore.keyed_of_record hbase).attempt _ (RunRecord.findAttempt_eq_some hattempt).1
  unfold persistCompensationOutcome
  generalize redact cfg.runtime sensitivePaths outcome.result = result
  -- the attempt is completed and logged before the run is settled
  have hcurrent : v.Turns [.saveAttempt (attempt.completedWith outcome completedAt none result),
      .appendEvent (completedEvent attempt row outcome completedAt result)]
      { v with
        attempts := v.attempts.put (attempt.completedWith outcome completedAt none result)
        events := v.events ++ [completedEvent attempt row outcome completedAt result] } :=
    ⟨by simp [hrunId], rfl⟩
  have hrecord := hcurrent.record hbase
  simp only [Tx.ensures_ite, Tx.ensures_bind, Tx.ensures_read, Tx.ensures_lift, Tx.ensures_pure,
    Prod.forall, WorkflowRun.transition_eq_ok_iff, UowM.ensures_saveRun, Tx.ensures_stage,
    UowM.ensures_saveAttempt, List.nil_append, List.cons_append]
  refine fun _ => ⟨fun hfailed => ?_, fun hsuccess => ?_⟩
  -- a compensation that failed is handed over
  · rintro _ _ ⟨htransition, rfl, rfl⟩ _
    exact ⟨_, hcurrent.append (by simp) rfl, attempt, result, _,
      [completedEvent attempt row outcome completedAt result,
        v.run.movedEvent .manualIntervention completedAt], hattempt, hphase,
      .failed hfailed htransition, by simp, by simp⟩
  -- one that succeeded ends the run when none is left to undo
  · rw [← MemoryStore.runId_of_record hbase] at hrecord
    rw [MemoryStore.stepRuns_of_record hrecord, MemoryStore.listAttempts_of_record hrecord]
    refine fun pending hpending => ⟨fun hnone => ?_, fun hsome => ?_⟩
    · rintro _ _ ⟨htransition, rfl, rfl⟩ _
      obtain rfl : pending = [] := by simpa using hnone
      exact ⟨_, hcurrent.append (by simp) rfl, attempt, result, _,
        [completedEvent attempt row outcome completedAt result,
          v.run.movedEvent .compensated completedAt], hattempt, hphase,
        .completed (not_not.mp hsuccess) hpending htransition, by simp, by simp⟩
    · obtain ⟨first, rest, rfl⟩ := List.exists_cons_of_ne_nil (by simpa using hsome)
      exact ⟨_, hcurrent, attempt, result, v.run,
        [completedEvent attempt row outcome completedAt result], hattempt, hphase,
        .remaining (not_not.mp hsuccess) hpending, by simp, by simp⟩

theorem persistForwardOutcome_spec {cfg : Deployment} {step : StepDefinition} {row : StepRun}
    {attempt : StepAttempt} {outcome : ExecutionOutcome} {completedAt : Timestamp}
    {sensitivePaths : List (List String)} (hbase : base.record outcome.runId = some v)
    (hstep : step ∈ v.definition.steps) (hstepId : step.id = outcome.stepId)
    (hrow : v.steps outcome.stepId = some row)
    (hattempt : v.findAttempt outcome.stepId outcome.attemptNo = some attempt)
    (hphase : attempt.phase ≠ .compensation) :
    Tx.Ensures (persistForwardOutcome cfg v.run v.definition step row attempt outcome completedAt
      sensitivePaths) (fun _ staged =>
        ∃ v', v.Turns staged v' ∧ v.ForwardOutcome outcome completedAt v') base [] := by
  have hkeyed := MemoryStore.keyed_of_record hbase
  obtain ⟨hid, hrowRun⟩ := hkeyed.step hrow
  have hrunId : attempt.runId = v.run.runId :=
    hkeyed.attempt _ (RunRecord.findAttempt_eq_some hattempt).1
  unfold persistForwardOutcome
  generalize redact cfg.runtime sensitivePaths outcome.result = result
  simp only [Tx.ensures_bind, Tx.ensures_read, Tx.ensures_lift, Prod.forall,
    StepRun.transition_eq_ok_iff, UowM.ensures_saveStep, Tx.ensures_stage,
    UowM.ensures_saveAttempt, List.nil_append, List.cons_append, Tx.view_nil,
    MemoryStore.stepRuns_of_record hbase]
  rintro nextState nextAttemptAt hresult _ _ ⟨htransition, rfl, rfl⟩
  rw [show (if nextState = .succeeded then
      { row.moved nextState with
        completionSequence := some (nextCompletionSequence v.stepRuns)
        logicalIdempotencyKey := some attempt.idempotencyKey }
    else row.moved nextState) = v.finishedStep row nextState attempt.idempotencyKey from rfl]
  intro _ _
  generalize hfinished : v.finishedStep row nextState attempt.idempotencyKey = finished
  -- the step, its attempt and the two events
  have hcurrent : v.Turns [.saveStep finished row.revision,
      .saveAttempt (attempt.completedWith outcome completedAt nextAttemptAt result),
      .appendEvent (row.movedEvent nextState completedAt),
      .appendEvent (completedEvent attempt finished outcome completedAt result)]
      { v with
        steps := Function.update v.steps outcome.stepId (some finished)
        attempts := v.attempts.put
          (attempt.completedWith outcome completedAt nextAttemptAt result)
        events := v.events ++ [row.movedEvent nextState completedAt,
          completedEvent attempt finished outcome completedAt result] } := by
    have hfinishedId : finished.stepId = outcome.stepId ∧ finished.runId = v.run.runId := by
      rw [← hfinished, RunRecord.finishedStep]
      split <;> exact ⟨hid, hrowRun⟩
    exact ⟨by simp [hrunId, hrowRun, hfinishedId], by simp [hfinishedId]⟩
  -- what becomes of the run is `settleRun`'s part
  refine (settleRun_spec hbase hcurrent rfl).mono ?_
  rintro _ staged ⟨run, events, hturns, hsettles, hevents⟩
  refine ⟨_, hturns, step, row, attempt, nextState, nextAttemptAt, result, run,
    [row.movedEvent nextState completedAt,
      completedEvent attempt finished outcome completedAt result] ++ events,
    hstep, hstepId, hrow, hattempt, hphase, hresult, htransition, ?_, ?_, ?_⟩
  · rw [hfinished]
    exact RunRecord.Settles.of_events hsettles
  · simpa using hevents
  · simp [hfinished]

/-- An outcome is written into the attempt that has its number. -/
theorem persistOutcome_spec {cfg : Deployment} {outcome : ExecutionOutcome}
    {completedAt : Timestamp} {sensitivePaths : List (List String)}
    (hbase : base.record outcome.runId = some v) :
    Tx.Ensures (persistOutcome cfg outcome completedAt sensitivePaths) (fun _ staged =>
      ∃ v', v.Turns staged v' ∧
        (v.ForwardOutcome outcome completedAt v' ∨ v.CompensationOutcome outcome completedAt v'))
      base [] := by
  unfold persistOutcome
  simp only [Tx.ensures_bind, Tx.ensures_read, Tx.ensures_require, Tx.ensures_ite,
    Tx.ensures_pure, Tx.view_nil, MemoryStore.runs_get_of_record hbase,
    MemoryStore.getStep_of_record hbase, MemoryStore.listStepAttempts_of_record hbase,
    Option.some.injEq, forall_eq', MemoryStore.definitionOf_of_record hbase]
  intro step hstep row hrow attempt hattempt
  refine ⟨fun hphase => ?_, fun hphase => ?_⟩
  · refine (persistCompensationOutcome_spec hbase hattempt hphase).mono ?_
    rintro _ _ ⟨v', hturns, hwritten⟩
    exact ⟨v', hturns, Or.inr hwritten⟩
  · refine (persistForwardOutcome_spec hbase (List.mem_of_find?_eq_some hstep)
      (by simpa using List.find?_some hstep) hrow hattempt hphase).mono ?_
    rintro _ _ ⟨v', hturns, hwritten⟩
    exact ⟨v', hturns, Or.inl hwritten⟩

/-! ## The end of compensation -/

theorem completeCompensation_spec {runId : String} {occurredAt : Timestamp}
    (hbase : base.record runId = some v) :
    Tx.Ensures (completeCompensation runId occurredAt) (fun exit staged =>
      match exit with
      | .commit () => v.run.state = .compensating ∧ v.Turns staged
          { v with
            run := v.run.moved .compensated
            events := v.events ++ [v.run.movedEvent .compensated occurredAt] }
      | .leave () => True) base [] := by
  unfold completeCompensation
  simp only [Tx.ensures_bind, Tx.ensures_read, Tx.view_nil, MemoryStore.runs_get_of_record hbase,
    Tx.ensures_ite, Tx.ensures_pure, Tx.ensures_lift, Prod.forall,
    WorkflowRun.transition_eq_ok_iff, UowM.ensures_saveRun, Tx.ensures_stage]
  refine ⟨fun _ => trivial, fun hstate => ?_⟩
  rintro _ _ ⟨_, rfl, rfl⟩ _
  exact ⟨not_not.mp hstate, by simp, rfl⟩

/-! ## Cancelling -/

theorem cancelRun_spec {runId : String} {occurredAt : Timestamp}
    (hbase : base.record runId = some v) :
    Tx.Ensures (WorkflowService.cancelRun runId occurredAt) (fun _ staged =>
      RunState.cancelled ∈ runTransitions v.run.state ∧ v.Turns staged
        { v with
          run := v.run.moved .cancelled
          events := v.events ++ [v.run.movedEvent .cancelled occurredAt] }) base [] := by
  unfold WorkflowService.cancelRun
  simp only [Tx.ensures_bind, Tx.ensures_read, Tx.view_nil, MemoryStore.runs_get_of_record hbase,
    Tx.ensures_require, Option.some.injEq, forall_eq', Tx.ensures_pure, Tx.ensures_lift,
    Prod.forall, WorkflowRun.transition_eq_ok_iff, UowM.ensures_saveRun, Tx.ensures_stage]
  rintro _ _ ⟨htransition, rfl, rfl⟩ _
  exact ⟨htransition, by simp, rfl⟩

/-! ## Recovery -/

theorem RunRecord.AppliedSettles.of_events {v : RunRecord} {events : List AuditEvent}
    {stepId : String} {phase : ToolExecutionPhase} {run : WorkflowRun}
    (h : ({ v with events := events } : RunRecord).AppliedSettles stepId phase run) :
    v.AppliedSettles stepId phase run := by
  cases h with
  | unaffected hforward hpending hothers => exact .unaffected hforward hpending hothers
  | compensated hstate hphase hpending => exact .compensated hstate hphase hpending
  | compensatedAtOnce hstate hphase => exact .compensatedAtOnce hstate hphase
  | completed hstate hothers => exact .completed hstate hothers

theorem targetAfterApplied_eq_ok {store : MemoryStore} {runId : String} {w : RunRecord}
    {run : WorkflowRun} {definition : WorkflowDefinition} {stepId : String}
    {phase : ToolExecutionPhase} {target : Option RunState}
    (hrecord : store.record runId = some w)
    (hrun : w.run = run) (hdefinition : w.definition = definition)
    (h : targetAfterApplied store run definition stepId phase = .ok target) :
    w.AppliedSettles stepId phase (target.elim run run.moved) := by
  obtain rfl := MemoryStore.runId_of_record hrecord
  subst hrun hdefinition
  unfold targetAfterApplied at h
  rw [MemoryStore.stepRuns_of_record hrecord, MemoryStore.listAttempts_of_record hrecord] at h
  -- the outcome of a compensation
  by_cases hcompensation : w.run.state = .compensating ∧ phase = .compensation
  · simp only [hcompensation, and_self, if_true, Except.bind_eq_ok_iff] at h
    obtain ⟨pending, hpending, h⟩ := h
    cases pending with
    | nil =>
        obtain rfl : some RunState.compensated = target := by simpa using h
        exact .compensated hcompensation.1 hcompensation.2 hpending
    | cons first rest =>
        obtain rfl : none = target := by simpa using h
        exact .unaffected (by simp [hcompensation.2]) (fun _ _ => ⟨first, rest, hpending⟩)
          (by simp [hcompensation.1])
  -- a forward attempt of a run that compensates already
  · by_cases hforward : w.run.state = .compensating ∧ phase = .forward
    · obtain rfl : some RunState.compensated = target := by simpa [hcompensation, hforward] using h
      exact .compensatedAtOnce hforward.1 hforward.2
    -- a forward attempt of a running run
    · by_cases hrunning : w.run.state = .running
      · simp only [hrunning, reduceCtorEq, false_and, if_false, if_true, Except.bind_eq_ok_iff] at h
        obtain ⟨others, hothers, h⟩ := h
        have hspec := allOthersSucceeded_eq_ok hrecord hothers
        cases others with
        | true =>
            obtain rfl : some RunState.succeeded = target := by simpa using h
            exact .completed hrunning (hspec.mp rfl)
        | false =>
            obtain rfl : none = target := by simpa using h
            exact .unaffected hforward (fun hstate hphase => absurd ⟨hstate, hphase⟩ hcompensation)
              fun _ hall => by simpa using hspec.mpr hall
      · obtain rfl : none = target := by simpa [hcompensation, hforward, hrunning] using h
        exact .unaffected hforward (fun hstate hphase => absurd ⟨hstate, hphase⟩ hcompensation)
          fun hstate => absurd hstate hrunning

/-- A change of the run that recovery saves, if any, is the one that settles it. -/
theorem runAfterApplied_eq_ok {store : MemoryStore} {runId : String} {w : RunRecord}
    {run : WorkflowRun} {definition : WorkflowDefinition} {stepId : String}
    {phase : ToolExecutionPhase} {occurredAt : Timestamp}
    {change : Option (WorkflowRun × AuditEvent)}
    (hrecord : store.record runId = some w) (hrun : w.run = run)
    (hdefinition : w.definition = definition)
    (h : runAfterApplied store run definition stepId phase occurredAt = .ok change) :
    (change = none ∧ w.AppliedSettles stepId phase run) ∨
      ∃ target, change = some (run.moved target, run.movedEvent target occurredAt) ∧
        w.AppliedSettles stepId phase (run.moved target) := by
  simp only [runAfterApplied, Except.bind_eq_ok_iff] at h
  obtain ⟨target, htarget, h⟩ := h
  have hsettles := targetAfterApplied_eq_ok hrecord hrun hdefinition htarget
  cases target with
  | none => exact Or.inl ⟨(Except.pure_eq_ok_iff.mp h).symm, hsettles⟩
  | some target =>
      simp only [Except.bind_eq_ok_iff, Except.pure_eq_ok_iff, Prod.exists,
        WorkflowRun.transition_eq_ok_iff] at h
      obtain ⟨_, _, ⟨_, rfl, rfl⟩, rfl⟩ := h
      exact Or.inr ⟨target, rfl, hsettles⟩

@[simp] theorem ensures_saveChangedRun (run : WorkflowRun)
    (change : Option (WorkflowRun × AuditEvent)) {Q : Unit → List Write → Prop}
    {staged : List Write} :
    Tx.Ensures (saveChangedRun run change) Q base staged ↔
      match change with
      | none => Q () staged
      | some (changed, event) => changed.revision = run.revision + 1 →
          Q () (staged ++ [.saveRun changed run.revision, .appendEvent event]) := by
  cases change <;> simp [saveChangedRun]

@[simp] theorem ensures_moveStep (row : StepRun) (phase : ToolExecutionPhase) (target : StepState)
    (occurredAt : Timestamp) {Q : StepRun → List Write → Prop} {staged : List Write} :
    Tx.Ensures (moveStep row phase target occurredAt) Q base staged ↔
      (phase = .forward → target ∈ stepTransitions row.state → Q (row.moved target)
        (staged ++ [.saveStep (row.moved target) row.revision,
          .appendEvent (row.movedEvent target occurredAt)])) ∧
      (phase ≠ .forward → Q row staged) := by
  simp [moveStep]

/-- A forward decision moves the step on, another one leaves it. -/
def StepRun.Decided (row : StepRun) (phase : ToolExecutionPhase) (target : StepState)
    (changed : StepRun) : Prop :=
  (phase = .forward ∧ target ∈ stepTransitions row.state ∧ changed = row.moved target) ∨
    (phase ≠ .forward ∧ changed = row)

/-- An effect that recovery has found is written into step, attempt and run. -/
def RunRecord.AppliedRecovery (v : RunRecord) (step : StepDefinition) (row : StepRun)
    (attempt : StepAttempt) (occurredAt : Timestamp) (v' : RunRecord) : Prop :=
  ∃ changed result run events,
    row.Decided attempt.phase .succeeded changed ∧
    (v.recorded step.id changed (attempt.applied occurredAt result)).AppliedSettles
      step.id attempt.phase run ∧
    (∀ event ∈ events, ¬ event.Gate) ∧
    v' = { v with
      run := run
      steps := Function.update v.steps step.id (some changed)
      attempts := v.attempts.put (attempt.applied occurredAt result)
      events := v.events ++ events }

/-- Once step and attempt are written, the run follows. -/
theorem RunRecord.Turns.applied {step : StepDefinition} {row changed : StepRun}
    {attempt : StepAttempt} {result : Value} {occurredAt : Timestamp} {staged : List Write}
    {events : List AuditEvent} {change : Option (WorkflowRun × AuditEvent)}
    (hbase : base.record v.run.runId = some v) (hattempt : attempt ∈ v.attempts.rows)
    (hchanged : row.Decided attempt.phase .succeeded changed)
    (hchangedId : changed.stepId = step.id) (hevents : ∀ event ∈ events, ¬ event.Gate)
    (hturns : v.Turns staged { v with
      steps := Function.update v.steps step.id (some changed)
      attempts := v.attempts.put (attempt.applied occurredAt result)
      events := v.events ++ events })
    (h : runAfterApplied (UowM.view base staged) v.run v.definition changed.stepId attempt.phase
      occurredAt = .ok change) :
    match change with
    | none => ∃ v', v.Turns (staged ++ [.appendEvent
        (recoveryEvent .recoveryApplied changed attempt occurredAt "applied")]) v' ∧
          v.AppliedRecovery step row attempt occurredAt v'
    | some (changedRun, runEvent) => ∃ v', v.Turns (staged ++ [.saveRun changedRun v.run.revision,
        .appendEvent runEvent, .appendEvent
          (recoveryEvent .recoveryApplied changed attempt occurredAt "applied")]) v' ∧
          v.AppliedRecovery step row attempt occurredAt v' := by
  have hrunId : attempt.runId = v.run.runId :=
    (MemoryStore.keyed_of_record hbase).attempt _ hattempt
  have hgate := not_gate_recoveryEvent (by simp : EventType.recoveryApplied ∈ _) changed attempt
    occurredAt "applied"
  rw [hchangedId] at h
  -- whether the run changes its state too
  rcases runAfterApplied_eq_ok (hturns.record hbase) rfl rfl h with
    ⟨rfl, hsettles⟩ | ⟨target, rfl, hsettles⟩
  · refine ⟨_, hturns.append (by simp [hrunId]) rfl, changed, result, v.run,
      events ++ [recoveryEvent .recoveryApplied changed attempt occurredAt "applied"], hchanged,
      hsettles.of_events, ?_, by simp⟩
    exact List.forall_mem_append.mpr ⟨hevents, by simpa using hgate⟩
  · refine ⟨_, hturns.append (by simp [hrunId]) rfl, changed, result, v.run.moved target,
      events ++ [v.run.movedEvent target occurredAt,
        recoveryEvent .recoveryApplied changed attempt occurredAt "applied"], hchanged,
      hsettles.of_events, ?_, by simp⟩
    exact List.forall_mem_append.mpr ⟨hevents, by simpa using hgate⟩

theorem persistApplied_spec {cfg : Deployment} {step : StepDefinition} {row : StepRun}
    {attempt : StepAttempt} {output : Value} {occurredAt : Timestamp}
    (hbase : base.record v.run.runId = some v) (hrow : v.steps step.id = some row)
    (hattempt : attempt ∈ v.attempts.rows) :
    Tx.Ensures (persistApplied cfg v.run v.definition step row attempt output occurredAt)
      (fun _ staged => ∃ v', v.Turns staged v' ∧
        v.AppliedRecovery step row attempt occurredAt v') base [] := by
  have hkeyed := MemoryStore.keyed_of_record hbase
  obtain ⟨hid, hrowRun⟩ := hkeyed.step hrow
  have hrunId : attempt.runId = v.run.runId := hkeyed.attempt _ hattempt
  unfold persistApplied
  simp only [Tx.ensures_bind, Tx.ensures_require, Tx.ensures_lift, UowM.ensures_saveAttempt,
    ensures_moveStep, List.nil_append, Tx.ensures_read, ensures_saveChangedRun, Tx.ensures_stage]
  intro tool _ descriptor _ _
  generalize redact cfg.runtime descriptor.sensitiveArgumentPaths output = result
  refine ⟨fun hforward htransition change hchange => ?_, fun hnot change hchange => ?_⟩
  -- a forward attempt moves its step to succeeded
  · have hturns : v.Turns [.saveAttempt (attempt.applied occurredAt result),
        .saveStep (row.moved .succeeded) row.revision,
        .appendEvent (row.movedEvent .succeeded occurredAt)] { v with
          steps := Function.update v.steps step.id (some (row.moved .succeeded))
          attempts := v.attempts.put (attempt.applied occurredAt result)
          events := v.events ++ [row.movedEvent .succeeded occurredAt] } :=
      ⟨by simp [hrunId, hrowRun], by simp [hid]⟩
    have := hturns.applied hbase hattempt (Or.inl ⟨hforward, htransition, rfl⟩) hid (by simp)
      hchange
    cases change with
    | none => exact this
    | some change => exact fun _ => this
  -- a compensation leaves its step alone
  · have hturns : v.Turns [.saveAttempt (attempt.applied occurredAt result)] { v with
          steps := Function.update v.steps step.id (some row)
          attempts := v.attempts.put (attempt.applied occurredAt result)
          events := v.events ++ [] } :=
      ⟨by simp [hrunId], by simp [← hrow]⟩
    have := hturns.applied hbase hattempt (Or.inr ⟨hnot, rfl⟩) hid (by simp) hchange
    cases change with
    | none => exact this
    | some change => exact fun _ => this

/-- A decision other than an effect found is written into step and attempt. -/
def RunRecord.ClosedRecovery (v : RunRecord) (step : StepDefinition) (row : StepRun)
    (attempt : StepAttempt) (status : AttemptStatus) (target : StepState) (run : WorkflowRun)
    (occurredAt : Timestamp) (v' : RunRecord) : Prop :=
  ∃ changed events,
    row.Decided attempt.phase target changed ∧
    (∀ event ∈ events, ¬ event.Gate) ∧
    v' = { v with
      run := run
      steps := Function.update v.steps step.id (some changed)
      attempts := v.attempts.put (attempt.closed status occurredAt)
      events := v.events ++ events }

theorem persistNotApplied_spec {step : StepDefinition} {row : StepRun} {attempt : StepAttempt}
    {occurredAt : Timestamp} (hbase : base.record v.run.runId = some v)
    (hrow : v.steps step.id = some row) (hattempt : attempt ∈ v.attempts.rows) :
    Tx.Ensures (persistNotApplied row attempt occurredAt) (fun _ staged => ∃ v', v.Turns staged v' ∧
      v.ClosedRecovery step row attempt .notApplied .ready v.run occurredAt v') base [] := by
  have hkeyed := MemoryStore.keyed_of_record hbase
  obtain ⟨hid, hrowRun⟩ := hkeyed.step hrow
  have hrunId : attempt.runId = v.run.runId := hkeyed.attempt _ hattempt
  unfold persistNotApplied
  simp only [Tx.ensures_bind, ensures_moveStep, UowM.ensures_saveAttempt, Tx.ensures_stage,
    List.nil_append, List.cons_append]
  have hgate (changed : StepRun) := not_gate_recoveryEvent
    (by simp : EventType.recoveryNotApplied ∈ _) changed attempt occurredAt "not_applied"
  refine ⟨fun hforward htransition _ => ?_, fun hnot _ => ?_⟩
  · exact ⟨_, ⟨by simp [hrunId, hrowRun], rfl⟩, row.moved .ready,
      [row.movedEvent .ready occurredAt, recoveryEvent .recoveryNotApplied (row.moved .ready)
        attempt occurredAt "not_applied"], Or.inl ⟨hforward, htransition, rfl⟩,
      by simpa using hgate _, by simp [hid]⟩
  · exact ⟨_, ⟨by simp [hrunId], rfl⟩, row,
      [recoveryEvent .recoveryNotApplied row attempt occurredAt "not_applied"],
      Or.inr ⟨hnot, rfl⟩, by simpa using hgate _, by simp [← hrow]⟩

theorem persistManualIntervention_spec {step : StepDefinition} {row : StepRun}
    {attempt : StepAttempt} {occurredAt : Timestamp} (hbase : base.record v.run.runId = some v)
    (hrow : v.steps step.id = some row) (hattempt : attempt ∈ v.attempts.rows) :
    Tx.Ensures (persistManualIntervention v.run row attempt occurredAt) (fun _ staged =>
      RunState.manualIntervention ∈ runTransitions v.run.state ∧ ∃ run v', v.Turns staged v' ∧
        (run = v.run.moved .manualIntervention ∨
          run = { v.run.moved .manualIntervention with
            compensationError := some unprovenCompensation }) ∧
        (attempt.phase = .compensation → run.compensationError = some unprovenCompensation) ∧
        v.ClosedRecovery step row attempt .manualIntervention .manualIntervention run occurredAt
          v') base [] := by
  have hkeyed := MemoryStore.keyed_of_record hbase
  obtain ⟨hid, hrowRun⟩ := hkeyed.step hrow
  have hrunId : attempt.runId = v.run.runId := hkeyed.attempt _ hattempt
  unfold persistManualIntervention
  simp only [Tx.ensures_bind, ensures_moveStep, UowM.ensures_saveAttempt, Tx.ensures_stage,
    List.nil_append, List.cons_append, Tx.ensures_lift, Prod.forall,
    WorkflowRun.transition_eq_ok_iff, UowM.ensures_saveRun]
  have hgate (changed : StepRun) := not_gate_recoveryEvent
    (by simp : EventType.recoveryManualIntervention ∈ _) changed attempt occurredAt
    "manual_intervention"
  -- a forward attempt takes its step along
  refine ⟨fun hforward htransition => ?_, fun hnot => ?_⟩
  · rintro _ _ ⟨hmanual, rfl, rfl⟩ _ _
    simp only [hforward, reduceCtorEq, if_false]
    exact ⟨hmanual, _, _, ⟨by simp [hrunId, hrowRun], rfl⟩, Or.inl rfl,
      False.elim,
      row.moved .manualIntervention, [row.movedEvent .manualIntervention occurredAt,
        v.run.movedEvent .manualIntervention occurredAt, recoveryEvent .recoveryManualIntervention
          (row.moved .manualIntervention) attempt occurredAt "manual_intervention"],
      Or.inl ⟨hforward, htransition, rfl⟩, by simpa using hgate _, by simp [hid]⟩
  · rintro _ _ ⟨hmanual, rfl, rfl⟩ _ _
    refine ⟨hmanual, ?_⟩
    -- a compensation leaves its error in the run
    split
    case isTrue =>
      exact ⟨_, _, ⟨by simp [hrunId], rfl⟩, Or.inr rfl, fun _ => rfl, row,
        [v.run.movedEvent .manualIntervention occurredAt,
          recoveryEvent .recoveryManualIntervention row attempt occurredAt "manual_intervention"],
        Or.inr ⟨hnot, rfl⟩, by simpa using hgate _, by simp [← hrow]⟩
    case isFalse hother =>
      exact ⟨_, _, ⟨by simp [hrunId], rfl⟩, Or.inl rfl, fun hphase => absurd hphase hother, row,
        [v.run.movedEvent .manualIntervention occurredAt,
          recoveryEvent .recoveryManualIntervention row attempt occurredAt "manual_intervention"],
        Or.inr ⟨hnot, rfl⟩, by simpa using hgate _, by simp [← hrow]⟩

/-- A decision of recovery, for the attempt of the step that has the expected number
and phase. -/
theorem recoverAttempt_spec {cfg : Deployment} {answers : ProbeAnswers} {runId stepId : String}
    {expected : StepAttempt} {occurredAt : Timestamp} (hbase : base.record runId = some v) :
    Tx.Ensures (recoverAttempt cfg answers runId stepId expected occurredAt) (fun _ staged =>
      ∃ step row attempt v', v.Turns staged v' ∧
        step ∈ v.definition.steps ∧ step.id = stepId ∧ v.steps stepId = some row ∧
        attempt ∈ v.stepAttempts stepId ∧ attempt.attemptNo = expected.attemptNo ∧
        attempt.phase = expected.phase ∧
        ((∃ output, probe cfg answers step attempt occurredAt = .ok (some (.found output)) ∧
            v.AppliedRecovery step row attempt occurredAt v') ∨
          (probe cfg answers step attempt occurredAt = .ok (some .notFound) ∧
            v.ClosedRecovery step row attempt .notApplied .ready v.run occurredAt v') ∨
          (RunState.manualIntervention ∈ runTransitions v.run.state ∧ ∃ run,
            (run = v.run.moved .manualIntervention ∨
              run = { v.run.moved .manualIntervention with
                compensationError := some unprovenCompensation }) ∧
            (attempt.phase = .compensation →
              run.compensationError = some unprovenCompensation) ∧
            v.ClosedRecovery step row attempt .manualIntervention .manualIntervention run
              occurredAt v'))) base [] := by
  obtain rfl := MemoryStore.runId_of_record hbase
  unfold recoverAttempt
  simp only [Tx.ensures_bind, Tx.ensures_read, Tx.ensures_require, Tx.ensures_lift,
    Tx.view_nil, MemoryStore.runs_get_of_record hbase,
    MemoryStore.definitionOf_of_record hbase, MemoryStore.getStep_of_record hbase,
    MemoryStore.listStepAttempts_of_record hbase, Option.some.injEq, forall_eq']
  intro step hfind row hrow attempt hattempt
  have hstep := List.mem_of_find?_eq_some hfind
  obtain rfl : step.id = stepId := by simpa using List.find?_some hfind
  have hmem := List.mem_of_find?_eq_some hattempt
  obtain ⟨hattemptNo, hphase⟩ : attempt.attemptNo = expected.attemptNo ∧
      attempt.phase = expected.phase := by simpa using List.find?_some hattempt
  have hrows := (RunRecord.mem_stepAttempts.mp hmem).1
  intro answer hprobe
  -- the probe's answer decides which of the three ways is taken
  rcases answer with _ | ⟨output⟩ | _ | _
  case some.found =>
      simp only [Tx.ensures_bind, Tx.ensures_pure]
      refine (persistApplied_spec hbase hrow hrows).mono ?_
      rintro _ _ ⟨v', hturns, happlied⟩
      exact ⟨step, row, attempt, v', hturns, hstep, rfl, hrow, hmem, hattemptNo, hphase,
        Or.inl ⟨output, hprobe, happlied⟩⟩
  case some.notFound =>
      simp only [Tx.ensures_bind, Tx.ensures_pure]
      refine (persistNotApplied_spec hbase hrow hrows).mono ?_
      rintro _ _ ⟨v', hturns, hclosed⟩
      exact ⟨step, row, attempt, v', hturns, hstep, rfl, hrow, hmem, hattemptNo, hphase,
        Or.inr (Or.inl ⟨hprobe, hclosed⟩)⟩
  -- an unknown result and a probe that fails are both handed over
  all_goals
    simp only [Tx.ensures_bind, Tx.ensures_pure]
    refine (persistManualIntervention_spec hbase hrow hrows).mono ?_
    rintro _ _ ⟨hmanual, run, v', hturns, hrun, hclosed⟩
    exact ⟨step, row, attempt, v', hturns, hstep, rfl, hrow, hmem, hattemptNo, hphase,
      Or.inr (Or.inr ⟨hmanual, run, hrun, hclosed⟩)⟩

/-! ## Decisions -/

theorem rejectionTargetFrom_ne_running (store : MemoryStore) (runId : String)
    (steps : List StepDefinition) : ∀ hasEffect : Bool,
    rejectionTargetFrom store runId hasEffect steps ≠ .running := by
  induction steps with
  | nil => intro hasEffect; cases hasEffect <;> simp [rejectionTargetFrom]
  | cons step rest ih =>
      intro hasEffect
      unfold rejectionTargetFrom
      split
      · exact ih hasEffect
      · split <;> try exact ih hasEffect
        split <;> try exact ih hasEffect
        split
        · simp
        · exact ih true

/-- Only an approval lets the run go on. -/
theorem decisionTarget_running_iff {store : MemoryStore} {run : WorkflowRun}
    {decision : ApprovalDecision} {target : RunState}
    (h : decisionTarget store run decision = .ok target) :
    target = .running ↔ decision = .approved := by
  cases decision with
  | approved => simpa [decisionTarget, eq_comm] using h
  | rejected =>
      simp only [decisionTarget, rejectionTarget] at h
      split at h
      · simp at h
      · obtain rfl := Except.ok.inj h
        simp [rejectionTargetFrom_ne_running]

/-- A decision closes a pending request of a waiting run and moves the run. -/
theorem decide_spec {runtime : Runtime} {runId requestId bindingDigest actor reason : String}
    {decision : ApprovalDecision} {expectedVersion : ℤ} {occurredAt : Timestamp}
    (hbase : base.record runId = some v) :
    Tx.Ensures (ApprovalService.decide runtime runId requestId decision expectedVersion
      bindingDigest actor reason occurredAt) (fun _ staged =>
        ∃ request target actor reason decisionEvent,
          request ∈ v.approvals.rows ∧ request.id = requestId ∧ request.status = .pending ∧
          v.run.state = .waitingApproval ∧ target ∈ runTransitions v.run.state ∧
          decisionTarget base v.run decision = .ok target ∧
          decisionEvent.eventType = approvalEventType decision ∧
          decisionEvent.requestId? = some request.id ∧
          v.Turns staged
            { v with
              run := v.run.moved target
              approvals := v.approvals.put (request.decided decision actor reason occurredAt)
              events := v.events ++ [decisionEvent] ++ [v.run.movedEvent target occurredAt] })
      base [] := by
  unfold ApprovalService.decide
  simp only [Tx.ensures_bind, Tx.ensures_read, Tx.ensures_require, Tx.ensures_lift,
    Tx.ensures_ite, Tx.ensures_throw, Tx.ensures_pure, Tx.view_nil, Prod.forall,
    WorkflowRun.transition_eq_ok_iff, UowM.ensures_saveRun, UowM.ensures_saveApproval,
    Tx.ensures_stage, imp_true_iff, true_and, List.nil_append, List.cons_append]
  intro request hrequest run hrun awaits _
  obtain ⟨hmem, hid⟩ := MemoryStore.mem_approvals_of_record hbase hrequest
  have hrunId : request.runId = v.run.runId :=
    (MemoryStore.keyed_of_record hbase).approval _ hmem
  -- the request's run is the run itself
  obtain rfl : v.run = run := by
    rw [hrunId, MemoryStore.runId_of_record hbase, MemoryStore.runs_get_of_record hbase] at hrun
    exact Option.some.inj hrun
  rintro _ _ hpending _ hstate target htarget _ _ ⟨htransition, rfl, rfl⟩ _ _ _
  exact ⟨request, target, _, _, _, hmem, hid, not_not.mp hpending, not_not.mp hstate, htransition,
    htarget, rfl, AuditEvent.requestId?_approvalChanged .., ⟨by simp [hrunId], rfl⟩⟩

/-! ## The approval barrier -/

/-- Some requests of `v` are invalidated, with an event for each. -/
structure RunRecord.Invalidates (v : RunRecord) (approvals : KeyedTable ApprovalRequest.key)
    (events : List AuditEvent) : Prop where
  kept : ∀ request ∈ v.approvals.rows, ∃ later ∈ approvals.rows,
    later.id = request.id ∧ later.binding = request.binding
  origin : ∀ request ∈ approvals.rows, request ∈ v.approvals.rows ∨
    (request.status = .invalidated ∧ ∃ earlier ∈ v.approvals.rows, earlier.key = request.key)
  events : ∀ event ∈ events, event.Gate → event.eventType = .approvalInvalidated ∧
    ∃ earlier ∈ v.approvals.rows, event.requestId? = some earlier.id ∧
      ∀ request ∈ approvals.rows, request.id = earlier.id → request.status = .invalidated

theorem ApprovalRequest.key_eq_iff {a b : ApprovalRequest} :
    a.key = b.key ↔ a.runId = b.runId ∧ a.id = b.id := by
  simp [ApprovalRequest.key, approvalKey, Prod.ext_iff]

theorem RunRecord.Invalidates.refl (v : RunRecord) : v.Invalidates v.approvals [] where
  kept request hrequest := ⟨request, hrequest, rfl, rfl⟩
  origin _ hrequest := Or.inl hrequest
  events := by simp

/-- One more request is invalidated. -/
theorem RunRecord.Invalidates.snoc {approvals : KeyedTable ApprovalRequest.key}
    {events : List AuditEvent} (h : v.Invalidates approvals events) (hkeyed : v.Keyed)
    {request : ApprovalRequest} (hrequest : request ∈ v.approvals.rows) (decidedAt : Timestamp)
    (event : AuditEvent) (htype : event.eventType = .approvalInvalidated)
    (hrequestId : event.requestId? = some request.id) :
    v.Invalidates (approvals.put (request.invalidated decidedAt)) (events ++ [event]) where
  kept earlier hearlier := by
    by_cases hid : earlier.id = request.id
    -- the earlier request may be the one that is invalidated now
    · have hsame : earlier = request := v.approvals.eq_of_key_eq hearlier hrequest <|
        ApprovalRequest.key_eq_iff.mpr ⟨(hkeyed.approval _ hearlier).trans
          (hkeyed.approval _ hrequest).symm, hid⟩
      exact ⟨_, KeyedTable.mem_put.mpr (Or.inl rfl), by simp [hsame]⟩
    · obtain ⟨later, hlater, hlaterId, hbinding⟩ := h.kept earlier hearlier
      refine ⟨later, KeyedTable.mem_put.mpr (Or.inr ⟨hlater, fun hkey => hid ?_⟩), hlaterId, hbinding⟩
      exact hlaterId.symm.trans (ApprovalRequest.key_eq_iff.mp hkey).2
  origin other hother := by
    rcases KeyedTable.mem_put.mp hother with rfl | ⟨hother, _⟩
    · exact Or.inr ⟨rfl, request, hrequest, rfl⟩
    · exact h.origin other hother
  events other hother hgate := by
    rcases List.mem_append.mp hother with hother | hother
    -- an event of an earlier invalidation: its request stays invalidated
    · obtain ⟨htype, earlier, hearlier, hid, hall⟩ := h.events other hother hgate
      refine ⟨htype, earlier, hearlier, hid, fun later hlater hlaterId => ?_⟩
      rcases KeyedTable.mem_put.mp hlater with rfl | ⟨hlater, _⟩
      · rfl
      · exact hall later hlater hlaterId
    -- the event of this one
    · rw [List.mem_singleton.mp hother]
      refine ⟨htype, request, hrequest, hrequestId, fun later hlater hlaterId => ?_⟩
      rcases KeyedTable.mem_put.mp hlater with rfl | ⟨hlater, hkey⟩
      · rfl
      · refine absurd (ApprovalRequest.key_eq_iff.mpr ⟨?_, hlaterId⟩) hkey
        rcases h.origin later hlater with hold | ⟨_, earlier, hearlier, hkeys⟩
        · exact (hkeyed.approval _ hold).trans (hkeyed.approval _ hrequest).symm
        · rw [← (ApprovalRequest.key_eq_iff.mp hkeys).1]
          exact (hkeyed.approval _ hearlier).trans (hkeyed.approval _ hrequest).symm

theorem invalidateOthers_spec {runId : String} {binding : Binding} {occurredAt : Timestamp}
    (hbase : base.record runId = some v) (requests : List ApprovalRequest)
    (hrequests : ∀ request ∈ requests, request ∈ v.approvals.rows) :
    ∀ {matching : Option ApprovalRequest} {staged : List Write}
      {approvals : KeyedTable ApprovalRequest.key} {events : List AuditEvent},
      v.Turns staged { v with approvals := approvals, events := v.events ++ events } →
      v.Invalidates approvals events →
      Tx.Ensures (invalidateOthers v.run binding occurredAt matching requests) (fun _ final =>
        ∃ approvals events,
          v.Turns final { v with approvals := approvals, events := v.events ++ events } ∧
          v.Invalidates approvals events) base staged := by
  have hkeyed := MemoryStore.keyed_of_record hbase
  induction requests with
  | nil =>
      intro matching staged approvals events hturns hinvalidates
      simpa [invalidateOthers] using ⟨approvals, events, hturns, hinvalidates⟩
  | cons request rest ih =>
      intro matching staged approvals events hturns hinvalidates
      have hrest : ∀ request ∈ rest, request ∈ v.approvals.rows :=
        fun other hother => hrequests other (List.mem_cons_of_mem _ hother)
      have hrequest := hrequests request List.mem_cons_self
      unfold invalidateOthers
      simp only [Tx.ensures_ite, Tx.ensures_bind, UowM.ensures_saveApproval, Tx.ensures_stage]
      refine ⟨fun _ => ih hrest hturns hinvalidates, fun _ => ⟨fun _ => ?_, fun _ _ _ => ?_⟩⟩
      · exact ih hrest hturns hinvalidates
      · rw [List.append_assoc]
        refine ih hrest (hturns.append ?_ (by simp)) (hinvalidates.snoc hkeyed hrequest occurredAt
          (.approvalChanged v.run.runId request.stepId .approvalInvalidated occurredAt v.run.state
            v.run.state v.run.revision v.run.revision request.id request.bindingDigest.val
            "invalidated" []) rfl (AuditEvent.requestId?_approvalChanged ..))
        simp [hkeyed.approval _ hrequest]

theorem enterWaiting_spec {w : RunRecord} {staged : List Write} {occurredAt : Timestamp}
    (hturns : v.Turns staged w) (hrun : w.run = v.run) :
    Tx.Ensures (enterWaiting v.run occurredAt) (fun run final => ∃ events,
      v.Turns final { w with run := run, events := w.events ++ events } ∧
      (∀ event ∈ events, ¬ event.Gate) ∧
      ((v.run.state = .waitingApproval ∧ run = v.run) ∨
        (RunState.waitingApproval ∈ runTransitions v.run.state ∧
          run = v.run.moved .waitingApproval))) base staged := by
  unfold enterWaiting
  simp only [Tx.ensures_ite, Tx.ensures_bind, Tx.ensures_lift, Prod.forall,
    WorkflowRun.transition_eq_ok_iff, UowM.ensures_saveRun, Tx.ensures_stage, Tx.ensures_pure]
  refine ⟨fun _ => ?_, fun hstate => ?_⟩
  · rintro _ _ ⟨htransition, rfl, rfl⟩ _
    rw [List.append_assoc]
    exact ⟨[v.run.movedEvent .waitingApproval occurredAt], hturns.append (by simp) rfl, by simp,
      Or.inr ⟨htransition, rfl⟩⟩
  · exact ⟨[], by simpa [← hrun] using hturns, by simp, Or.inl ⟨not_not.mp hstate, trivial⟩⟩

theorem RunRecord.Invalidates.barrier {approvals : KeyedTable ApprovalRequest.key}
    {events more : List AuditEvent} (h : v.Invalidates approvals events)
    (hmore : ∀ event ∈ more, ¬ event.Gate) : v.BarrierApprovals approvals (events ++ more) where
  kept := h.kept
  origin request hrequest := (h.origin request hrequest).imp_right fun h => Or.inl h.1
  events event hevent hgate := by
    rcases List.mem_append.mp hevent with hevent | hevent
    · exact h.events event hevent hgate
    · exact absurd hgate (hmore event hevent)

/-- The request added last has an id of its own. -/
theorem RunRecord.BarrierApprovals.put {approvals : KeyedTable ApprovalRequest.key}
    {events : List AuditEvent} (h : v.BarrierApprovals approvals events)
    {request : ApprovalRequest} (hpending : request.status = .pending)
    (hfresh : ∀ earlier ∈ v.approvals.rows, earlier.id ≠ request.id) :
    v.BarrierApprovals (approvals.put request) events where
  kept earlier hearlier := by
    obtain ⟨later, hlater, hid, hbinding⟩ := h.kept earlier hearlier
    refine ⟨later, KeyedTable.mem_put.mpr (Or.inr ⟨hlater, fun hkey => ?_⟩), hid, hbinding⟩
    exact hfresh earlier hearlier (hid.symm.trans (ApprovalRequest.key_eq_iff.mp hkey).2)
  origin other hother := by
    rcases KeyedTable.mem_put.mp hother with rfl | ⟨hother, _⟩
    · exact Or.inr (Or.inr ⟨hpending, hfresh⟩)
    · exact h.origin other hother
  events event hevent hgate := by
    obtain ⟨htype, earlier, hearlier, hid, hall⟩ := h.events event hevent hgate
    refine ⟨htype, earlier, hearlier, hid, fun later hlater hlaterId => ?_⟩
    rcases KeyedTable.mem_put.mp hlater with rfl | ⟨hlater, _⟩
    · exact absurd hlaterId.symm (hfresh earlier hearlier)
    · exact hall later hlater hlaterId

/-- A barrier finds nothing to recover, and leaves a pending request for the step. -/
theorem establishApprovalBarrier_spec {cfg : Deployment} {ownedFutures : List OwnedFuture}
    {runId stepId newId : String} {occurredAt : Timestamp} (hbase : base.record runId = some v) :
    Tx.Ensures (establishApprovalBarrier cfg ownedFutures runId stepId newId occurredAt)
      (fun exit staged => match exit with
        | .commit _ => validate staged base = .ok () → ∃ step run approvals events,
            uowHasPersistedRecoveryWork ownedFutures base v.run v.definition = .ok false ∧
            step ∈ v.definition.steps ∧ step.id = stepId ∧
            ((v.run.state = .waitingApproval ∧ run = v.run) ∨
              (RunState.waitingApproval ∈ runTransitions v.run.state ∧
                run = v.run.moved .waitingApproval)) ∧
            v.BarrierApprovals approvals events ∧
            v.Turns staged { v with
              run := run, approvals := approvals, events := v.events ++ events }
        | .leave _ => True) base [] := by
  unfold establishApprovalBarrier
  simp only [Tx.ensures_bind, Tx.ensures_read, Tx.ensures_require, Tx.ensures_lift,
    Tx.ensures_ite, Tx.ensures_pure, Tx.view_nil, MemoryStore.runs_get_of_record hbase,
    MemoryStore.definitionOf_of_record hbase, Option.some.injEq, forall_eq', imp_true_iff,
    true_and, MemoryStore.listApprovals_of_record hbase]
  intro work hwork hidle step hfind snapshot _ _
  obtain rfl : work = false := by simpa using hidle
  have hstep := List.mem_of_find?_eq_some hfind
  have hstepId : step.id = stepId := by simpa using List.find?_some hfind
  -- the requests that do not match are invalidated first, then the run waits
  refine (invalidateOthers_spec hbase v.approvals.rows (fun _ h => h) ⟨by simp, by simp⟩
    (.refl v)).mono ?_
  rintro matching staged ⟨approvals, events, hturns, hinvalidates⟩
  refine (enterWaiting_spec hturns rfl).mono ?_
  rintro run staged ⟨runEvents, hturns, hrunEvents, hrun⟩
  simp only [Tx.ensures_stage, UowM.ensures_addApproval]
  refine ⟨fun _ _ hvalid => ?_, fun _ _ => ?_⟩
  -- no request matches: a new one is added
  · generalize hrequest : newRequest runId v.definition step snapshot newId occurredAt = request
      at hvalid ⊢
    have hrunId : request.runId = runId := by rw [← hrequest]; rfl
    -- the commit would refuse an identifier that is taken
    have hfresh : ∀ earlier ∈ v.approvals.rows, earlier.id ≠ request.id := by
      intro earlier hearlier hid
      have hnone := uniqueness_of_validate hvalid
        (by simp : Write.addApproval request ∈ _)
      have hget := MemoryStore.approvals_get_of_mem hbase hearlier
      rw [hid, ← hrunId] at hget
      simp [Write.uniqueness, ApprovalRequest.key, hget] at hnone
    refine ⟨step, run, approvals.put request,
      events ++ (runEvents ++ [createdApprovalEvent v.run run request occurredAt]), hwork, hstep,
      hstepId, hrun, (hinvalidates.barrier ?_).put (by rw [← hrequest]; rfl) hfresh, ?_⟩
    · refine List.forall_mem_append.mpr ⟨hrunEvents, ?_⟩
      simp [AuditEvent.Gate, createdApprovalEvent, AuditEvent.approvalChanged]
    · rw [List.append_assoc]
      refine hturns.append ?_ (by simp)
      simp [createdApprovalEvent, hrunId, MemoryStore.runId_of_record hbase]
  -- one matches already, and nothing is added
  · refine ⟨step, run, approvals, events ++ runEvents, hwork, hstep, hstepId, hrun,
      hinvalidates.barrier hrunEvents, ?_⟩
    simpa using hturns

/-! ## Creating a run -/

/-- The rows of a run that has just been created. -/
structure RunRecord.Initial (v : RunRecord) : Prop where
  run : v.run.state = .pending
  steps : ∀ id row, v.steps id = some row → row.state = .pending ∧ row.completionSequence = none
  attempts : v.attempts.rows = []
  approvals : v.approvals.rows = []
  events : ∀ event ∈ v.events, ¬ event.Gate
  originalError : v.run.originalError = none

theorem MemoryStore.record_putRun_of_vacant {store : MemoryStore} {runId : String}
    {run : WorkflowRun} {definition : WorkflowDefinition} (hvacant : store.Agree runId {})
    (hrun : run.runId = runId) (hdefinition : store.definitionOf run = some definition) :
    (store.putRun run).record runId = some {
      run := run, definition := definition, steps := fun _ => none
      attempts := .empty, approvals := .empty, events := [] } := by
  refine record_eq_some_iff.mpr ⟨?_, hdefinition, ?_, ?_, ?_, ?_⟩
  · rw [← hrun]
    exact KeyedTable.get_put_self _ _
  · exact hvacant.steps
  · exact hvacant.attempts
  · exact hvacant.approvals
  · rw [show (store.putRun run).events = store.events from rfl, hvacant.events]
    rfl

theorem ensures_addSteps {runId : String} (steps : List StepDefinition)
    {Q : Unit → List Write → Prop} : ∀ {staged : List Write},
    Tx.Ensures (WorkflowService.addSteps runId steps) Q base staged ↔
      Q () (staged ++ steps.map fun step => .addStep { runId := runId, stepId := step.id }) := by
  induction steps with
  | nil => intro staged; simp [WorkflowService.addSteps]
  | cons step rest ih => intro staged; simp [WorkflowService.addSteps, ih]

/-- The steps of a new run are pending. -/
theorem RunRecord.foldl_addStep (runId : String) (steps : List StepDefinition) :
    ∀ {v : RunRecord}, (∀ id row, v.steps id = some row →
        row.state = .pending ∧ row.completionSequence = none) →
      ∃ rows : String → Option StepRun,
        (steps.map fun step => Write.addStep { runId := runId, stepId := step.id }).foldl
          RunRecord.apply v = { v with steps := rows } ∧
        ∀ id row, rows id = some row → row.state = .pending ∧ row.completionSequence = none := by
  induction steps with
  | nil => intro v hv; exact ⟨v.steps, rfl, hv⟩
  | cons step rest ih =>
      intro v hv
      have hnext : ∀ id row, Function.update v.steps step.id
          (some { runId := runId, stepId := step.id }) id = some row →
            row.state = .pending ∧ row.completionSequence = none := by
        intro id row hrow
        by_cases hid : id = step.id
        · subst hid
          rw [Function.update_self] at hrow
          obtain rfl := Option.some.inj hrow
          exact ⟨rfl, rfl⟩
        · rw [Function.update_of_ne hid] at hrow
          exact hv id row hrow
      obtain ⟨rows, hrows, hpending⟩ := ih (v := v.apply (.addStep {
        runId := runId, stepId := step.id })) hnext
      exact ⟨rows, hrows, hpending⟩

/-- The writes that create a run, apart from that of its definition. -/
def creationWrites (runId : String) (definition : WorkflowDefinition) (occurredAt : Timestamp) :
    List Write :=
  .addRun (WorkflowService.newRun runId definition) ::
    (definition.steps.map (fun step => .addStep { runId := runId, stepId := step.id }) ++
      [.appendEvent (WorkflowService.createdEvent runId definition occurredAt)])

theorem creationWrites_own {runId : String} {definition : WorkflowDefinition}
    {occurredAt : Timestamp} :
    ∀ write ∈ creationWrites runId definition occurredAt, write.runId? = some runId := by
  intro write hwrite
  simp only [creationWrites, List.mem_cons, List.mem_append, List.mem_map, List.not_mem_nil,
    or_false] at hwrite
  rcases hwrite with rfl | ⟨step, _, rfl⟩ | rfl <;> rfl

theorem record_creationWrites {store : MemoryStore} {runId : String}
    {definition stored : WorkflowDefinition} {occurredAt : Timestamp}
    (hvacant : store.Agree runId {})
    (hstored : store.definitionOf (WorkflowService.newRun runId definition) = some stored) :
    ∃ v, (UowM.view store (creationWrites runId definition occurredAt)).record runId = some v ∧
      v.Initial := by
  have hrecord := MemoryStore.record_putRun_of_vacant hvacant rfl hstored
  generalize hstart : RunRecord.mk .. = start at hrecord
  obtain ⟨rows, hrows, hpending⟩ := RunRecord.foldl_addStep runId definition.steps
    (v := start) (by simp [← hstart])
  have hown : ∀ write ∈ definition.steps.map
      (fun step => Write.addStep { runId := runId, stepId := step.id }) ++
        [.appendEvent (WorkflowService.createdEvent runId definition occurredAt)],
      write.Belongs start.run := by
    intro write hwrite
    rw [← hstart]
    simp only [List.mem_append, List.mem_map, List.mem_singleton] at hwrite
    rcases hwrite with ⟨step, _, rfl⟩ | rfl <;> rfl
  refine ⟨_, MemoryStore.record_view hrecord hown, ?_⟩
  rw [List.foldl_append, hrows, ← hstart]
  exact {
    run := rfl
    steps := hpending
    attempts := rfl
    approvals := rfl
    events := by simp [AuditEvent.Gate, WorkflowService.createdEvent]
    originalError := rfl }

/-- A new run gets pending rows, and no definition is replaced. -/
theorem createRun_spec {cfg : Deployment} {payload : Value} {runId : String}
    {occurredAt : Timestamp} (hvacant : base.Agree runId {}) :
    Tx.Ensures (WorkflowService.createRun cfg payload runId occurredAt) (fun _ staged =>
      (∀ write ∈ staged, write.runId? = none ∨ write.runId? = some runId) ∧
      (∀ key definition, base.definitions.get key = some definition →
        (UowM.view base staged).definitions.get key = some definition) ∧
      ∃ v, (UowM.view base staged).record runId = some v ∧ v.Initial) base [] := by
  unfold WorkflowService.createRun WorkflowService.addRun
  simp only [Tx.ensures_bind, Tx.ensures_lift, Tx.ensures_read, Tx.view_nil]
  intro definition _
  have hwrites : creationWrites runId definition occurredAt =
    .addRun (WorkflowService.newRun runId definition) ::
      (definition.steps.map (fun step => .addStep { runId := runId, stepId := step.id }) ++
        [.appendEvent (WorkflowService.createdEvent runId definition occurredAt)]) := rfl
  -- the definition is added, unless it is known already
  cases hstored : base.definitions.get
      (definitionKey definition.definitionId definition.version) with
  | none =>
      simp only [Tx.ensures_bind, Tx.ensures_stage, ensures_addSteps, Tx.ensures_pure,
        List.nil_append, List.cons_append]
      rw [← hwrites]
      refine ⟨?_, fun key other hother => ?_, ?_⟩
      · rintro write (_ | ⟨_, hwrite⟩)
        exacts [Or.inl rfl, Or.inr (creationWrites_own write hwrite)]
      -- the new definition hides none of the others
      · rw [UowM.view, Tx.view_cons, MemoryStore.definitions_view creationWrites_own]
        refine (KeyedTable.get_put_ne _ ?_).trans hother
        rintro rfl
        exact absurd (hstored.symm.trans hother) (by simp)
      · rw [UowM.view, Tx.view_cons]
        refine record_creationWrites ((MemoryStore.agree_apply (by simp [Write.runId?])).trans
          hvacant) (KeyedTable.get_put_self _ _)
  | some existing =>
      simp only [Tx.ensures_bind, Tx.ensures_stage, ensures_addSteps, Tx.ensures_pure,
        Tx.ensures_ite, Tx.ensures_throw, imp_true_iff, true_and, List.nil_append,
        List.cons_append]
      intro _
      rw [← hwrites]
      refine ⟨fun write hwrite => Or.inr (creationWrites_own write hwrite), ?_,
        record_creationWrites hvacant hstored⟩
      rw [MemoryStore.definitions_view creationWrites_own]
      exact fun _ _ h => h

end

end ChangePilot
