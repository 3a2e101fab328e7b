import ChangePilot.Guarantees.Attempts
import ChangePilot.Guarantees.Progress
import ChangePilot.System.Recording

/-!
# Outcomes that can be recorded

With one coordinator and recovery at restart, the outcome of a request in flight finds
its step running, or its run compensating, so that it is recorded; unless the next
attempt would have to be scheduled for an instant that there is no timestamp for.
-/

namespace ChangePilot

/-! ## Runs with a compensation in flight -/

/-- While a compensation runs, its run compensates. -/
def RunView.CompensatesMeanwhile (v : RunView) : Prop :=
  ∀ a ∈ v.attempts.rows, a.phase = .compensation → a.status = .running →
    v.run.state = .compensating

section

variable {cfg : Deployment} {cause : Cause} {v v' : RunView}

/-- The only running compensation ends. -/
theorem RunView.Tracked.compensatesMeanwhile_ended (hv : v.Tracked) {old new : StepAttempt}
    (hold : old ∈ v.attempts.rows) (hphase : old.phase = .compensation)
    (hrunning : old.status = .running) (hattempts : v'.attempts = v.attempts.put new)
    (hkey : old.key = new.key) (hended : new.status ≠ .running) : v'.CompensatesMeanwhile := by
  intro a ha haPhase haRunning
  rcases KeyedTable.mem_put.mp (hattempts ▸ ha) with rfl | ⟨hmem, hne⟩
  · exact absurd haRunning hended
  · obtain rfl := hv.single a hmem old hold haPhase hphase haRunning hrunning
    exact absurd hkey hne

theorem RunMove.compensatesMeanwhile (h : RunMove cfg v cause v') (hv : v.CompensatesMeanwhile)
    (hsound : v.Sound) (htracked : v.Tracked) : v'.CompensatesMeanwhile := by
  -- What a run has come to once a compensation has been started.
  have undoing {a : StepAttempt} (ha : a ∈ v.attempts.rows) (hphase : a.phase = .compensation) :
      v.Undoing := hsound.undoing ⟨a, ha, hphase⟩
  have quiet (hquiet : v.Quiet) (hattempts : v'.attempts = v.attempts) :
      v'.CompensatesMeanwhile := by
    intro a ha _ hrunning
    exact absurd hrunning (hquiet.attempts a (hattempts ▸ ha)).1
  have recovered {id : String} {row : StepRun} {old new : StepAttempt}
      (hrow : v.steps id = some row) (hunresolved : unresolvedAmong row (v.stepAttempts id) = some old)
      (hattempts : v'.attempts = v.attempts.put new) (hkey : old.key = new.key)
      (hended : new.status ≠ .running) : v'.CompensatesMeanwhile := by
    intro a ha hphase hrunning
    rcases KeyedTable.mem_put.mp (hattempts ▸ ha) with rfl | ⟨hmem, hne⟩
    · exact absurd hrunning hended
    · -- with a compensation there, the unresolved attempt is the one that runs
      obtain ⟨hold, holdRunning, holdPhase⟩ := (undoing hmem hphase).unresolved hsound hrow hunresolved
      exact htracked.compensatesMeanwhile_ended hold holdPhase holdRunning hattempts hkey hended a ha
        hphase hrunning
  cases h with
  | tick | forget | retriesDue | dependenciesReady => exact hv
  | barrier _ _ hquiet => exact quiet hquiet rfl
  | compensated _ hquiet => exact quiet hquiet rfl
  | decided _ _ hstate => exact quiet (hsound.waiting hstate).1 rfl
  | cancelled htransition =>
      intro a ha hphase _
      have hundoing := (undoing ha hphase).state
      revert htransition hundoing
      cases v.run.state <;> simp [runTransitions]
  | forwardStarted _ hrun _ _ hnext =>
      intro a ha hphase _
      rcases KeyedTable.mem_put.mp ha with rfl | ⟨ha, _⟩
      · simp [hnext.phase] at hphase
      · have hstate := (undoing ha hphase).state
        rcases hrun with ⟨hrun, _⟩ | ⟨hrun, _⟩ <;> simp [hrun] at hstate
  | compensationStarted hstate => exact fun _ _ _ _ => hstate
  | forwardFinished _ _ _ _ _ hattempt hnot _ _ hsettles =>
      intro a ha hphase hrunning
      rcases KeyedTable.mem_put.mp ha with rfl | ⟨ha, _⟩
      · exact absurd hphase hnot
      · have hstate := hv a ha hphase hrunning
        cases hsettles with
        | unaffected => exact hstate
        | completed hother | failed hother | compensating hother =>
            exact absurd (hstate.symm.trans hother) (by decide)
  | @compensationFinished _ attempt outcome _ _ _ _ _ _ hsource hattempt hphase _ _ =>
      refine htracked.compensatesMeanwhile_ended (RunRecord.findAttempt_eq_some hattempt).1 hphase
        (htracked.finds hsound hsource hattempt).1 rfl rfl ?_
      rcases outcome.status_eq with h | h <;> simp [StepAttempt.completedWith, h]
  | recoveredApplied _ hrow hunresolved =>
      exact recovered hrow hunresolved rfl rfl (by simp [StepAttempt.applied])
  | recoveredNotApplied _ hrow hunresolved | recoveredManual _ hrow hunresolved =>
      exact recovered hrow hunresolved rfl rfl (by simp [StepAttempt.closed])

end

theorem Reachable.compensatesMeanwhile {cfg : Deployment} {w : World}
    (h : Reachable cfg World.RecoversAtRestart w) {runId : String} {v : RunView}
    (hv : w.shared.view runId = some v) : v.CompensatesMeanwhile := by
  refine h.view_induction (P := RunView.CompensatesMeanwhile) ?_ ?_ hv
  · intro v hinitial _ _ a ha
    rw [hinitial.attempts] at ha
    exact absurd ha List.not_mem_nil
  · exact fun w action runId v v' hreachable _ hv hsound _ hmove hmeanwhile =>
      hmove.compensatesMeanwhile hmeanwhile hsound (hreachable.tracked hv)

/-! ## Scheduling -/

/-- If the step is to be attempted again after the outcome, the instant for it can be
told. -/
def RunRecord.CanSchedule (v : RunRecord) (outcome : ExecutionOutcome)
    (phase : ToolExecutionPhase) (completedAt : Timestamp) : Prop :=
  phase = .forward → outcome.status = .failed → outcome.errorClass = some .retryable →
    ∀ step ∈ v.definition.steps, step.id = outcome.stepId →
      outcome.attemptNo < step.retry.maxAttempts →
        completedAt.Reaches step.retry.initialBackoffSeconds

theorem exists_forwardResult_iff {retry : RetryPolicy} {outcome : ExecutionOutcome}
    {completedAt : Timestamp} :
    (∃ next, forwardResult retry outcome completedAt = .ok next) ↔
      (outcome.status = .failed → outcome.errorClass = some .retryable →
        outcome.attemptNo < retry.maxAttempts →
          completedAt.Reaches retry.initialBackoffSeconds) := by
  unfold forwardResult
  rcases outcome.status_eq with hstatus | hstatus
  · rw [hstatus, if_pos rfl]
    exact iff_of_true ⟨_, rfl⟩ fun h => by cases h
  · rw [hstatus, if_neg (by decide)]
    by_cases hretry : outcome.errorClass = some .retryable ∧ outcome.attemptNo < retry.maxAttempts
    · rw [if_pos hretry, Timestamp.reaches_iff]
      constructor
      · intro h _ _ _
        obtain ⟨next, hnext⟩ := h
        obtain ⟨instant, hinstant, _⟩ := Except.map_eq_ok_iff.mp hnext
        exact ⟨instant, hinstant⟩
      · intro h
        obtain ⟨instant, hinstant⟩ := h rfl hretry.1 hretry.2
        exact ⟨_, by rw [hinstant]; rfl⟩
    · rw [if_neg hretry]
      refine iff_of_true ?_ fun _ hclass hbound => absurd ⟨hclass, hbound⟩ hretry
      split <;> exact ⟨_, rfl⟩

/-! ## The guarantee -/

/-- The unit of work that records the outcome raises nothing, and what it commits ends the
attempt as the outcome says and leaves its step in another state than running. -/
def Shared.Records (cfg : Deployment) (s : Shared) (outcome : ExecutionOutcome)
    (sensitivePaths : List (List String)) : Prop :=
  ∃ answer staged v', persistOutcome cfg outcome s.clock sensitivePaths s.store [] =
      .ok (.commit answer, staged) ∧
    (UowM.view s.store staged).record outcome.runId = some v' ∧
    (∃ a ∈ v'.attempts.rows, a.stepId = outcome.stepId ∧ a.attemptNo = outcome.attemptNo ∧
      a.status = outcome.status ∧ a.completedAt = some s.clock) ∧
    v'.stateOf outcome.stepId ≠ some .running

section

variable {cfg : Deployment} {v v' : RunRecord} {outcome : ExecutionOutcome}
  {completedAt : Timestamp}

/-- An outcome that is written into the record has ended its attempt. -/
theorem RunRecord.finished_of_written
    (hsucceeded : ∀ a ∈ v.attempts.rows, a.phase = .compensation →
      v.stateOf a.stepId = some .succeeded)
    (h : v.ForwardOutcome outcome completedAt v' ∨ v.CompensationOutcome outcome completedAt v') :
    (∃ a ∈ v'.attempts.rows, a.stepId = outcome.stepId ∧ a.attemptNo = outcome.attemptNo ∧
      a.status = outcome.status ∧ a.completedAt = some completedAt) ∧
    v'.stateOf outcome.stepId ≠ some .running := by
  rcases h with ⟨step, row, attempt, nextState, nextAttemptAt, result, run, events, _, _, _,
    hattempt, _, hresult, _, _, _, rfl⟩ |
    ⟨attempt, result, run, events, hattempt, hphase, _, _, rfl⟩
  · obtain ⟨_, hid, hno⟩ := findAttempt_eq_some hattempt
    refine ⟨⟨_, KeyedTable.mem_put.mpr (.inl rfl), hid, hno, rfl, rfl⟩, ?_⟩
    simp only [stateOf, Function.update_self, Option.map_some, finishedStep_state]
    exact fun h => (forwardResult_ne_ready hresult).2 (Option.some.inj h)
  · obtain ⟨hmem, hid, hno⟩ := findAttempt_eq_some hattempt
    refine ⟨⟨_, KeyedTable.mem_put.mpr (.inl rfl), hid, hno, rfl, rfl⟩, ?_⟩
    have hstate := hsucceeded attempt hmem hphase
    rw [hid] at hstate
    exact fun h => absurd (hstate.symm.trans h) (by decide)

end

namespace RunView

variable {v : RunView} {future : ℕ × ToolExecutionContext} {outcome : ExecutionOutcome}

/-- The attempt that an outcome is written into is the one that its request in flight is
for, and runs. -/
theorem Tracked.exists_attempt (hv : v.Tracked) (hsound : v.Sound) (hfuture : future ∈ v.inFlight)
    (hstepId : outcome.stepId = future.2.stepId)
    (hattemptNo : outcome.attemptNo = future.2.attemptNumber) :
    ∃ a, v.findAttempt outcome.stepId outcome.attemptNo = some a ∧ future.2.IsFor a ∧
      a.status = .running := by
  obtain ⟨b, hb, hfor, _⟩ := hv.requested future hfuture
  have hsource : v.Outstanding outcome future.2.phase
      (v.inFlight.filter fun other => other.1 ≠ future.1) :=
    .inFlight hfuture hstepId.symm hattemptNo.symm rfl
  obtain ⟨a, ha⟩ : ∃ a, v.findAttempt outcome.stepId outcome.attemptNo = some a := by
    refine Option.isSome_iff_exists.mp (List.find?_isSome.mpr ⟨b, ?_, ?_⟩)
    · exact RunRecord.mem_stepAttempts.mpr ⟨hb, hfor.stepId.symm.trans hstepId.symm⟩
    · simpa using hfor.attemptNo.symm.trans hattemptNo.symm
  obtain ⟨_, hid, hno⟩ := RunRecord.findAttempt_eq_some ha
  obtain ⟨hrunning, _, hothers⟩ := hv.finds hsound hsource ha
  refine ⟨a, ha, ?_, hrunning⟩
  obtain ⟨f, hf, hforA, _⟩ | ⟨_, hsame, hnone⟩ := hsource.finds hsound ha
  · have hsame := hv.distinct f hf future hfuture
      (hforA.stepId.trans (hid.trans hstepId)) (hforA.attemptNo.trans (hno.trans hattemptNo))
    exact hsame ▸ hforA
  · have hmem := hfuture
    rw [← hsame] at hmem
    simp at hmem

end RunView

/-- In every reachable state of one coordinator with recovery at restart, and for every
outcome of a request that is in flight: it is recorded if and only if the next attempt,
where one is to follow, can be scheduled. -/
theorem outcome_is_recorded_iff {cfg : Deployment} {payloads : Set Value}
    (hdigests : cfg.DigestsTell payloads) {w : World}
    (h : Reachable cfg (fun w action => w.RecoversAtRestart action ∧
      World.CreatesOf payloads w action) w)
    {runId : String} {v : RunView} (hv : w.shared.view runId = some v)
    {future : ℕ × ToolExecutionContext} (hfuture : future ∈ v.inFlight) (ending : Ending)
    (sensitivePaths : List (List String)) :
    w.shared.Records cfg ⟨runId, future.2.stepId, future.2.attemptNumber, ending⟩ sensitivePaths ↔
      v.CanSchedule ⟨runId, future.2.stepId, future.2.attemptNumber, ending⟩ future.2.phase
        w.shared.clock := by
  have hrecord := (Shared.view_eq_some_iff.mp hv).1
  have hsound := h.sound hv
  have hrestart := h.mono fun _ _ hpermitted => hpermitted.1
  have htracked := hrestart.tracked hv
  have hstocked := ((h.mono fun _ _ hpermitted => hpermitted.2).live hdigests).stocked hv
  generalize houtcome :
    (⟨runId, future.2.stepId, future.2.attemptNumber, ending⟩ : ExecutionOutcome) = outcome
  have hrunId : outcome.runId = runId := by rw [← houtcome]
  have hstepId : outcome.stepId = future.2.stepId := by rw [← houtcome]
  have hattemptNo : outcome.attemptNo = future.2.attemptNumber := by rw [← houtcome]
  rw [← hrunId] at hrecord
  -- the future belongs to a running attempt of the log
  obtain ⟨a, hattempt, hfor, hrunning⟩ :=
    htracked.exists_attempt hsound hfuture hstepId hattemptNo
  obtain ⟨hmem, hid, _⟩ := RunRecord.findAttempt_eq_some hattempt
  obtain ⟨step, hstep, hstepOf, _⟩ := hsound.begun _ (hsound.started a hmem)
  have hspec : Tx.Ensures (persistOutcome cfg outcome w.shared.clock sensitivePaths) _ _ _ :=
    persistOutcome_spec hrecord
  constructor
  -- what was recorded had its next attempt's time computed
  · intro hrecords hforward hstatus hclass other hother hotherId hbound
    obtain ⟨answer, staged, _, hbody, _⟩ := hrecords
    obtain ⟨_, _, hwritten⟩ := hspec _ _ hbody
    rcases hwritten with ⟨step', _, _, _, _, _, _, _, hstep', hid', _, _, _, hresult, _⟩ |
      ⟨found, _, _, _, hfound, hcompensation, _⟩
    · obtain rfl := v.definition.eq_of_id_eq hother hstep' (hotherId.trans hid'.symm)
      exact exists_forwardResult_iff.mp ⟨_, hresult⟩ hstatus hclass hbound
    · obtain rfl : a = found := Option.some.inj (hattempt.symm.trans hfound)
      exact absurd (hforward.symm.trans (hfor.phase.trans hcompensation)) (by decide)
  -- no other guard of the unit can stop it
  · intro hschedules
    -- the step of a running forward attempt runs
    have hready (hphase : a.phase ≠ .compensation) : v.stateOf outcome.stepId = some .running ∧
        ∃ next, forwardResult step.retry outcome w.shared.clock = .ok next := by
      have hforward : a.phase = .forward := by
        cases hcase : a.phase with
        | forward => rfl
        | probe => exact absurd hcase (hsound.phases a hmem)
        | compensation => exact absurd hcase hphase
      refine ⟨hid ▸ htracked.active a hmem hforward hrunning, exists_forwardResult_iff.mpr ?_⟩
      exact fun hstatus hclass => hschedules (hfor.phase.trans hforward) hstatus hclass step hstep
        (hstepOf.trans hid)
    have hreturns : Tx.Returns (persistOutcome cfg outcome w.shared.clock sensitivePaths) _ _ _ :=
      persistOutcome_returns hrecord hstocked hstep (hstepOf.trans hid) hattempt
        (fun hphase => hrestart.compensatesMeanwhile hv a hmem hphase hrunning) hready
    -- the same run of the unit meets both specifications
    obtain ⟨exit, staged, hbody, ⟨hcommitted, _⟩, v', hturns, hwritten⟩ :=
      hreturns.and_ensures hspec
    obtain ⟨hended, hstate⟩ := RunRecord.finished_of_written hsound.compensations hwritten
    cases exit with
    | commit answer => exact ⟨answer, staged, v', hbody, hturns.record hrecord, hended, hstate⟩
    | leave answer => exact hcommitted.elim

namespace Sample

/-- A step that is tried again after this many seconds. -/
def retriedAfter (seconds : ℚ) : Value :=
  .ofFields [("id", .str "A"), ("tool", toolPayload "change"),
    ("retry", .ofFields [("initial_backoff_seconds", .float (.finite seconds))])]

/-- The payload of the only run, and the system when its step is in flight. -/
def patient (seconds : ℚ) : Value :=
  .ofFields [("definition_id", .str "d"), ("version", .int 1),
    ("steps", .list [retriedAfter seconds])]

def dispatched (seconds : ℚ) : World :=
  World.after deployment 0 (create [retriedAfter seconds] ++ runOnce)

theorem reachable_dispatched (seconds : ℚ) :
    Reachable deployment (fun w action => w.RecoversAtRestart action ∧
      World.CreatesOf {patient seconds} w action) (dispatched seconds) := by
  refine reachable_of_forall fun action haction w => ?_
  simp only [create, Sample.runOnce, call, List.mem_append, List.mem_cons, List.mem_replicate,
    List.not_mem_nil, or_false] at haction
  refine ⟨fun hrecover => ?_, fun payload runId hcreates => ?_⟩
  · subst hrecover
    simp at haction
  · subst hcreates
    simp only [reduceCtorEq, and_false, or_false] at haction
    exact (Action.createRun.inj haction).1

end Sample

open Sample in
/-- A failure that is followed by another attempt a second later is recorded. -/
theorem outcome_is_recorded_iff_retried :
    ∃ v, (dispatched 1).shared.view "r" = some v ∧ ∃ future ∈ v.inFlight,
      (dispatched 1).shared.Records deployment
        ⟨"r", future.2.stepId, future.2.attemptNumber, .failed .retryable "busy"⟩ [] := by
  obtain ⟨v, hv, hfutures, hbackoff⟩ := exists_view (w := dispatched 1)
    (P := fun v => v.inFlight ≠ [] ∧
      ∀ step ∈ v.definition.steps, step.retry.initialBackoffSeconds = .finite 1)
    (by decide +kernel)
  obtain ⟨future, hfuture⟩ := List.exists_mem_of_ne_nil _ hfutures
  have hdigests : deployment.DigestsTell {patient 1} := digestsTell_of_unique fun _ h => h
  refine ⟨v, hv, future, hfuture, (outcome_is_recorded_iff hdigests (reachable_dispatched 1) hv
    hfuture (.failed .retryable "busy") []).mpr ?_⟩
  intro _ _ _ step hstep _ _
  rw [hbackoff step hstep]
  exact ⟨1, rfl, by decide +kernel, by decide +kernel, by decide +kernel, by decide +kernel⟩

open Sample in
/-- A failure that is followed by another attempt after the year 9999 is not. -/
theorem far_retry_is_not_recorded :
    ∃ v, (dispatched 1000000000000).shared.view "r" = some v ∧ ∃ future ∈ v.inFlight,
      ¬ (dispatched 1000000000000).shared.Records deployment
        ⟨"r", future.2.stepId, future.2.attemptNumber, .failed .retryable "busy"⟩ [] := by
  obtain ⟨v, hv, future, hfuture, hraises⟩ := exists_view (w := dispatched 1000000000000)
    (P := fun v => ∃ future ∈ v.inFlight, (persistOutcome deployment
      ⟨"r", future.2.stepId, future.2.attemptNumber, .failed .retryable "busy"⟩
      (dispatched 1000000000000).shared.clock [] (dispatched 1000000000000).shared.store
      []).toBool = false) (by decide +kernel)
  refine ⟨v, hv, future, hfuture, fun hrecords => ?_⟩
  obtain ⟨answer, staged, _, hbody, _⟩ := hrecords
  rw [hbody] at hraises
  cases hraises

end ChangePilot
