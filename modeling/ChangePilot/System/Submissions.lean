import ChangePilot.System.Recording

/-!
# Starts and outcomes go through

The unit of work that records the start of a forward attempt ends without an error where
the run goes forward and the step is ready, and the one that records an outcome does so
where the attempt is under way and the instant of its retry exists.

Each unit is gone through by the rules of `Tx.Returns`, which ask for a value at every
lookup and for a transition at every move; the writes it stages fit the store one by one,
so that the commit accepts them (`MemoryStore.transact_isOk`).  What the run looks like
afterwards is taken from the specifications of the same units.
-/

namespace ChangePilot

/-! ## Saving -/

section

variable {base : MemoryStore} {staged : List Write} {Q : Unit → List Write → Prop}

theorem returns_addAttempt {attempt : StepAttempt}
    (hnew : ∀ other, Write.addAttempt other ∉ staged)
    (h : Q () (staged ++ [.addAttempt attempt])) :
    Tx.Returns (UowM.addAttempt attempt) Q base staged := by
  unfold UowM.addAttempt
  refine Tx.returns_bind ⟨staged, staged, rfl, ?_⟩
  dsimp only
  rw [if_neg]
  · exact Tx.returns_stage h
  · rw [UowM.hasAdded, Bool.not_eq_true, List.any_eq_false]
    intro write hwrite
    cases write with
    | addAttempt other => exact absurd hwrite (hnew other)
    | _ => simp

end

/-- A unit of work that commits writes that fit ends without an error. -/
theorem MemoryStore.transact_isOk {α : Type} {body : UowM (Exit α)} {store : MemoryStore}
    (hbody : Tx.Returns body (fun _ staged => ∀ write ∈ staged, store.Fits write) store [])
    (hcommits : Tx.Ensures body (fun exit _ => exit.Committed) store [])
    (hunambiguous : store.Unambiguous) : ∃ a next, store.transact body = .ok (a, next) := by
  obtain ⟨a, next, htransact, -⟩ := Tx.Returns.transact (P := fun _ _ => True)
    ((hbody.and_ensures hcommits).mono fun exit staged h => by
      cases exit with
      | commit a => exact ⟨validate_of_fits h.1 hunambiguous, trivial⟩
      | leave a => exact trivial)
  exact ⟨a, next, htransact⟩

/-! ## Starting -/

section

variable {base : MemoryStore} {v : RunRecord}

/-- The run is in execution, or enters it. -/
theorem enterExecution_returns {attempt : StepAttempt} (h : base.record attempt.runId = some v)
    (hphase : attempt.phase = .forward)
    (hrun : v.run.state = .pending ∨ v.run.state = .running) :
    Tx.Returns (enterExecution v.run attempt) (fun _ staged =>
      (∀ write ∈ staged, base.Fits write) ∧ (∀ other, Write.addAttempt other ∉ staged) ∧
        (UowM.view base staged).getStep = base.getStep) base [] := by
  unfold enterExecution
  rcases hrun with hpending | hrunning
  · rw [if_pos ⟨hphase, hpending⟩]
    have htransition : v.run.transition .running attempt.startedAt =
        .ok (v.run.moved .running, v.run.movedEvent .running attempt.startedAt) :=
      WorkflowRun.transition_eq_ok_iff.mpr ⟨by simp [hpending, runTransitions], rfl, rfl⟩
    refine Tx.returns_bind <| Tx.returns_lift htransition <| Tx.returns_bind <|
      returns_saveRun rfl <| Tx.returns_stage ⟨?_, ?_, rfl⟩
    · rintro write hwrite
      rcases List.mem_pair.mp hwrite with rfl | rfl
      · exact MemoryStore.fits_saveRun h rfl
      · exact .appendEvent _
    · simp
  · rw [if_neg (by simp [hrunning]), if_neg (by simp [hrunning]), if_neg (by simp [hphase])]
    exact Tx.returns_pure ⟨by simp, by simp, rfl⟩

/-- The start of a new forward attempt of a ready step is recorded. -/
theorem commitAttemptStarted_returns {attempt : StepAttempt} {row : StepRun}
    (h : base.record attempt.runId = some v) (hphase : attempt.phase = .forward)
    (hrun : v.run.state = .pending ∨ v.run.state = .running)
    (hrow : v.steps attempt.stepId = some row) (hready : row.state = .ready)
    (hnew : base.attempts.get attempt.key = none) :
    Tx.Returns (commitAttemptStarted attempt) (fun _ staged => ∀ write ∈ staged, base.Fits write)
      base [] := by
  unfold commitAttemptStarted
  refine Tx.returns_bind <| Tx.returns_read <| Tx.returns_bind <|
    Tx.returns_require (MemoryStore.runs_get_of_record h) <| Tx.returns_bind <|
      (enterExecution_returns h hphase hrun).mono ?_
  -- what is staged to enter execution does not touch the step
  rintro _ staged ⟨hfits, hadded, hsteps⟩
  have hget : (UowM.view base staged).getStep attempt.runId attempt.stepId = some row := by
    rw [hsteps]
    exact (MemoryStore.getStep_of_record h attempt.stepId).trans hrow
  have htransition : row.transition .running attempt.startedAt =
      .ok (row.moved .running, row.movedEvent .running attempt.startedAt) :=
    StepRun.transition_eq_ok_iff.mpr ⟨by simp [hready, stepTransitions], rfl, rfl⟩
  refine Tx.returns_bind <| Tx.returns_read <| Tx.returns_bind <| Tx.returns_require hget ?_
  rw [if_pos hphase]
  refine Tx.returns_bind <| Tx.returns_lift htransition <| Tx.returns_bind <|
    returns_saveStep rfl <| Tx.returns_bind <| Tx.returns_stage <| Tx.returns_bind <|
      Tx.returns_pure <| Tx.returns_bind <| returns_addAttempt ?_ <| Tx.returns_bind <|
        Tx.returns_stage <| Tx.returns_pure ?_
  -- four writes besides, each of which the store admits
  · simpa using hadded
  · simp only [List.append_assoc, List.mem_append, List.mem_cons, List.not_mem_nil, or_false]
    rintro write (hwrite | rfl | rfl | rfl | rfl)
    · exact hfits write hwrite
    · exact MemoryStore.fits_saveStep h hrow rfl rfl
    · exact .appendEvent _
    · exact .addAttempt hnew
    · exact .appendEvent _

end

/-! ## The effects of a run -/

/-- Two records with the same steps that have succeeded and the same forward effects have
the same steps to compensate. -/
theorem compensable_congr {v w : RunRecord} (hv : v.Keyed) (hw : w.Keyed)
    (hdefinition : w.definition = v.definition)
    (hstates : ∀ id, w.stateOf id = some .succeeded ↔ v.stateOf id = some .succeeded)
    (heffects : ∀ a : StepAttempt, a.ForwardEffect → (a ∈ w.attempts.rows ↔ a ∈ v.attempts.rows)) :
    compensable w.definition w.stepRuns w.attempts.rows =
      compensable v.definition v.stepRuns v.attempts.rows := by
  unfold compensable
  rw [hdefinition]
  refine List.filter_congr fun step hstep => decide_eq_decide.mpr (and_congr_right fun _ => ?_)
  rw [hw.stepStateIs_iff (hdefinition ▸ hstep), hv.stepStateIs_iff hstep, hstates]
  refine and_congr_right fun _ => exists_congr fun a => ?_
  constructor
  · rintro ⟨ha, hid, heffect⟩
    exact ⟨(heffects a heffect).mp ha, hid, heffect⟩
  · rintro ⟨ha, hid, heffect⟩
    exact ⟨(heffects a heffect).mpr ha, hid, heffect⟩

/-- There is an order to compensate in exactly if there is something to compensate. -/
theorem compensationOrder_isEmpty {definition : WorkflowDefinition} {stepRuns : List StepRun}
    {attempts : List StepAttempt} {ordered : List StepDefinition}
    (h : compensationOrder definition stepRuns attempts = .ok ordered) :
    ordered = [] ↔ compensable definition stepRuns attempts = [] := by
  rw [← List.length_eq_zero_iff, ← List.length_eq_zero_iff, (compensationOrder_spec h).1.length_eq]

/-- A write to an attempt that neither was nor is a forward effect. -/
theorem RunRecord.mem_put_effect {v : RunRecord} {new : StepAttempt}
    (hnew : ¬ new.ForwardEffect)
    (hold : ∀ a ∈ v.attempts.rows, a.key = new.key → ¬ a.ForwardEffect) {a : StepAttempt}
    (heffect : a.ForwardEffect) : a ∈ (v.attempts.put new).rows ↔ a ∈ v.attempts.rows := by
  rw [KeyedTable.mem_put]
  constructor
  · rintro (rfl | ⟨ha, _⟩)
    · exact absurd heffect hnew
    · exact ha
  · exact fun ha => Or.inr ⟨ha, fun hkey => hold a ha hkey heffect⟩

/-! ## Dispatching -/

/-- The prepared attempt has been started; its request is in flight unless the submission
has failed. -/
structure RunView.Starts (v : RunView) (prepared : PreparedAttempt) (submitFails : Bool)
    (v' : RunView) : Prop where
  state : v'.run.state = .running
  runId : v'.run.runId = v.run.runId
  definition : v'.definition = v.definition
  approvals : v'.approvals = v.approvals
  steps : ∃ row, row.state = .running ∧
    v'.steps = Function.update v.steps prepared.step.id (some row)
  attempts : v'.attempts = v.attempts.put prepared.attempt
  inFlight : ∃ id, v'.inFlight = v.inFlight ++ if submitFails then [] else [(id, prepared.context)]

namespace Shared

variable {cfg : Deployment} {s : Shared} {runId : String} {v : RunView}

/-- A prepared attempt of a ready step is started. -/
theorem dispatch_starts (hs : s.WellFormed) (hunambiguous : s.store.Unambiguous)
    (hv : s.view runId = some v) {prepared : PreparedAttempt} (hstartable : v.Startable cfg prepared)
    (hphase : prepared.attempt.phase = .forward)
    (hrun : v.run.state = .pending ∨ v.run.state = .running)
    (hready : v.stateOf prepared.step.id = some .ready) (submitFails : Bool) :
    ∃ t v', s.dispatch prepared submitFails = (.ok (!submitFails), t) ∧
      t.view runId = some v' ∧ v.Starts prepared submitFails v' := by
  have hnext := hstartable.next
  obtain ⟨hrecord, hinFlight, hlatest⟩ := view_eq_some_iff.mp hv
  obtain rfl : runId = prepared.attempt.runId :=
    (MemoryStore.runId_of_record hrecord).symm.trans hnext.runId.symm
  obtain ⟨row, hrow, hstate⟩ := RunRecord.stateOf_eq_some_iff.mp hready
  -- the attempt's number is the next one, so its key is not taken
  have hnew : s.store.attempts.get prepared.attempt.key = none := by
    rw [StepAttempt.key, MemoryStore.attempts_get_of_record hrecord]
    refine Option.eq_none_iff_forall_ne_some.mpr fun a ha => ?_
    obtain ⟨hmem, hkey⟩ := (KeyedTable.get_eq_some_iff _).mp ha
    rw [hphase] at hnext
    exact hnext.key_ne hmem hkey
  obtain ⟨_, next, htransact⟩ := MemoryStore.transact_isOk
    (commitAttemptStarted_returns hrecord hphase hrun (hnext.stepId ▸ hrow) hstate hnew)
    (commitAttemptStarted_commits _) hunambiguous
  have hstarted : ∀ w, s.view prepared.attempt.runId = some w → w.Startable cfg prepared := by
    intro w hw
    obtain rfl := Option.some.inj (hv.symm.trans hw)
    exact hstartable
  obtain ⟨record, record', hrecord₁, hrecord', hchanged⟩ :=
    (commitAttemptStarted_turned hs hstarted htransact).own
  obtain rfl := Option.some.inj (hrecord.symm.trans hrecord₁)
  rcases hchanged with ⟨_, run, _, events, hmoved, _, _, _, rfl⟩ | ⟨hother, _⟩
  case inr => exact absurd (hphase.symm.trans hother) (by decide)
  -- the run is running, whichever state it was started from
  have hruns : run.state = .running ∧ run.runId = v.run.runId := by
    rcases hmoved with ⟨_, rfl⟩ | ⟨hrunning, rfl⟩
    · exact ⟨rfl, rfl⟩
    · exact ⟨hrunning, rfl⟩
  unfold dispatch
  rw [inStore_of_transact htransact]
  -- whether the executor takes the attempt
  cases submitFails with
  | true =>
      exact ⟨_, _, rfl, view_of_record hrecord', hruns.1, hruns.2, rfl, rfl,
        ⟨_, rfl, by rw [hnext.stepId]; rfl⟩, rfl, 0, by rw [if_pos rfl, List.append_nil, hinFlight]; rfl⟩
  | false =>
      refine ⟨_, _, rfl, view_of_record hrecord', hruns.1, hruns.2, rfl, rfl,
        ⟨_, rfl, by rw [hnext.stepId]; rfl⟩, rfl, s.coordinator.nextFuture, ?_⟩
      rw [if_neg Bool.false_ne_true, hinFlight]
      exact (inFlight_own ..).trans (by rw [if_pos hstartable.runId]; rfl)

/-- Nothing is started in a run that no longer goes forward. -/
theorem dispatch_raises (hs : s.WellFormed) (hv : s.view runId = some v)
    {prepared : PreparedAttempt} (hstartable : v.Startable cfg prepared)
    (hphase : prepared.attempt.phase = .forward)
    (hrun : ¬ (v.run.state = .pending ∨ v.run.state = .running)) (submitFails : Bool) :
    ∃ e, s.dispatch prepared submitFails = (.error e, s) := by
  obtain ⟨hrecord, -, -⟩ := view_eq_some_iff.mp hv
  obtain rfl : runId = prepared.attempt.runId :=
    (MemoryStore.runId_of_record hrecord).symm.trans hstartable.next.runId.symm
  unfold dispatch inStore
  cases htransact : s.store.transact (commitAttemptStarted prepared.attempt) with
  | error e => exact ⟨e, rfl⟩
  | ok result =>
      have hstarted : ∀ w, s.view prepared.attempt.runId = some w → w.Startable cfg prepared := by
        intro w hw
        obtain rfl := Option.some.inj (hv.symm.trans hw)
        exact hstartable
      obtain ⟨record, _, hrecord₁, _, hchanged⟩ :=
        (commitAttemptStarted_turned hs hstarted htransact).own
      obtain rfl := Option.some.inj (hrecord.symm.trans hrecord₁)
      rcases hchanged with ⟨_, _, _, _, hmoved, _⟩ | ⟨hother, _⟩
      · exact absurd (hmoved.imp And.left And.left) hrun
      · exact absurd (hphase.symm.trans hother) (by decide)

end Shared

/-! ## Failed submissions -/

/-- While the run goes forward, an outcome with the number of a forward attempt finds it. -/
theorem RunView.Sound.findAttempt_forward {v : RunView} (hv : v.Sound)
    (hrunning : v.run.state = .running) {a : StepAttempt} (ha : a ∈ v.attempts.rows)
    (hphase : a.phase = .forward) : v.findAttempt a.stepId a.attemptNo = some a := by
  cases hfind : v.findAttempt a.stepId a.attemptNo with
  | none =>
      have hnone := List.find?_eq_none.mp hfind a (RunRecord.mem_stepAttempts.mpr ⟨ha, rfl⟩)
      exact absurd (decide_eq_true rfl) hnone
  | some b =>
      obtain ⟨hb, hstepId, hattemptNo⟩ := RunRecord.findAttempt_eq_some hfind
      have hforward : b.phase = .forward := by
        cases hcase : b.phase with
        | forward => rfl
        | probe => exact absurd hcase (hv.phases b hb)
        | compensation =>
            have hstate := (hv.undoing ⟨b, hb, hcase⟩).state
            simp [hrunning] at hstate
      exact congrArg some
        (hv.keyed.attempt_eq hb ha hstepId hattemptNo (hforward.trans hphase.symm))

/-- The failure of the submission is recorded. -/
structure RunView.RecordsFailure (v : RunView) (prepared : PreparedAttempt) (instant : Timestamp)
    (nextState : StepState) (v' : RunView) : Prop where
  state : v'.run.state = if nextState ≠ .failed then .running
    else if compensable v.definition v.stepRuns v.attempts.rows = [] then .failed
    else .compensating
  runId : v'.run.runId = v.run.runId
  definition : v'.definition = v.definition
  approvals : v'.approvals = v.approvals
  steps : ∃ row, row.state = nextState ∧
    v'.steps = Function.update v.steps prepared.step.id (some row)
  attempts : ∃ nextAttemptAt result, v'.attempts = v.attempts.put (prepared.attempt.completedWith
    (failedOutcome prepared.context .retryable "tool submission failed") instant nextAttemptAt
      result)
  inFlight : v'.inFlight = v.inFlight

/-- The prepared attempt has just been started, and nobody has its request. -/
structure RunView.Abandoned (v : RunView) (prepared : PreparedAttempt) : Prop where
  state : v.run.state = .running
  step : prepared.step ∈ v.definition.steps
  running : v.stateOf prepared.step.id = some .running
  attempt : prepared.attempt ∈ v.attempts.rows
  phase : prepared.attempt.phase = .forward
  stepId : prepared.attempt.stepId = prepared.step.id
  status : prepared.attempt.status = .running
  runId : prepared.context.runId = v.run.runId
  context : prepared.context.IsFor prepared.attempt

/-- The failure of a submission leaves the effects of the run alone. -/
theorem RunView.Abandoned.effects {v : RunView} {w : RunRecord} {prepared : PreparedAttempt}
    (h : v.Abandoned prepared) (hv : v.Keyed) (hw : w.Keyed) {row : StepRun}
    {instant : Timestamp} {nextAttemptAt : Option Timestamp} {result : Value}
    (hdefinition : w.definition = v.definition)
    (hsteps : w.steps = Function.update v.steps prepared.step.id (some row))
    (hrow : row.state ≠ .succeeded)
    (hattempts : w.attempts = v.attempts.put (prepared.attempt.completedWith
      (failedOutcome prepared.context .retryable "tool submission failed") instant nextAttemptAt
        result)) :
    compensable w.definition w.stepRuns w.attempts.rows =
      compensable v.definition v.stepRuns v.attempts.rows := by
  refine compensable_congr hv hw hdefinition (fun id => ?_) fun a heffect => ?_
  · rw [RunRecord.stateOf, hsteps]
    by_cases hsame : id = prepared.step.id
    · rw [hsame, Function.update_self, h.running]
      simpa using hrow
    · rw [Function.update_of_ne hsame, RunRecord.stateOf]
  · rw [hattempts]
    refine RunRecord.mem_put_effect ?_ ?_ heffect
    · rintro ⟨_, _, hraised⟩
      exact Bool.false_ne_true hraised
    · intro other hother hkey hothers
      obtain rfl : other = prepared.attempt := v.attempts.eq_of_key_eq hother h.attempt hkey
      have hcompleted := hothers.2.1
      rw [StepAttempt.Completed, h.status] at hcompleted
      exact absurd hcompleted (by decide)

namespace Shared

variable {cfg : Deployment} {s : Shared} {runId : String} {v : RunView}

/-- The failure of a submission is recorded, if the instant of the retry exists. -/
theorem recordOutcome_records (hs : s.WellFormed) (hunambiguous : s.store.Unambiguous)
    (hv : s.view runId = some v) (hstocked : v.Stocked) {prepared : PreparedAttempt}
    (habandoned : v.Abandoned prepared) {nextState : StepState} {nextAttemptAt : Option Timestamp}
    (hresult : forwardResult prepared.step.retry
      (failedOutcome prepared.context .retryable "tool submission failed") s.clock =
        .ok (nextState, nextAttemptAt)) :
    ∃ t v', s.recordOutcome cfg (failedOutcome prepared.context .retryable
        "tool submission failed") prepared.sensitivePaths = (.ok (), t) ∧
      t.view runId = some v' ∧ v.RecordsFailure prepared s.clock nextState v' := by
  obtain ⟨hrecord, hinFlight, hlatest⟩ := view_eq_some_iff.mp hv
  obtain rfl : runId = prepared.context.runId :=
    (MemoryStore.runId_of_record hrecord).symm.trans habandoned.runId.symm
  have hsound := hs.sound _ v hv
  have hstepId : prepared.context.stepId = prepared.step.id :=
    habandoned.context.stepId.trans habandoned.stepId
  -- the stored attempt that the outcome belongs to
  have hfind : v.findAttempt prepared.context.stepId prepared.context.attemptNumber =
      some prepared.attempt := by
    rw [habandoned.context.stepId, habandoned.context.attemptNo]
    exact hsound.findAttempt_forward habandoned.state habandoned.attempt habandoned.phase
  have hnotCompensation : prepared.attempt.phase ≠ .compensation := by
    rw [habandoned.phase]
    decide
  -- the outcome is a failure: the step waits or has failed
  have hopen : nextState = .retryWait ∨ nextState = .failed := by
    rcases forwardResult_spec hresult with ⟨hsuccess, _⟩ |
      ⟨_, ⟨_, _, hretry, _⟩ | ⟨hclass, _⟩ | ⟨_, hfailed, _⟩⟩
    · cases hsuccess
    · exact Or.inl hretry
    · cases hclass
    · exact Or.inr hfailed
  have hrunning : v.stateOf prepared.context.stepId = some .running := by
    rw [hstepId]
    exact habandoned.running
  -- no guard of the unit stops it
  have hreturns : Tx.Returns (persistOutcome cfg (failedOutcome prepared.context .retryable
      "tool submission failed") s.clock prepared.sensitivePaths) _ s.store [] :=
    persistOutcome_returns hrecord hstocked habandoned.step hstepId.symm hfind
      (fun h => absurd h hnotCompensation) fun _ => ⟨hrunning, _, hresult⟩
  obtain ⟨_, next, htransact⟩ := MemoryStore.transact_isOk (hreturns.mono fun _ _ h => h.2)
    (persistOutcome_commits cfg _ _ _) hunambiguous
  rcases recordOutcome_cases cfg hs (failedOutcome prepared.context .retryable
    "tool submission failed") prepared.sensitivePaths with
    ⟨e, herror⟩ | ⟨t, hrecorded, hclock, hlatest', howned, -, hturned⟩
  · rw [recordOutcome, htransact] at herror
    exact nomatch congrArg Prod.fst herror
  obtain ⟨record, record', hrecord₁, hrecord', hwritten⟩ := hturned.own
  obtain rfl := Option.some.inj (hrecord.symm.trans hrecord₁)
  rcases hwritten with hforward | ⟨attempt, _, _, _, hattempt, hcompensation, _⟩
  case inr =>
    obtain rfl := Option.some.inj (hfind.symm.trans hattempt)
    exact absurd hcompensation hnotCompensation
  obtain ⟨step, row', attempt, state, retryAt, result, run, events, hstep, hid, hrow', hattempt, _,
    hresult', _, hsettles, _, rfl⟩ := hforward
  -- the step and the attempt that it found are those of the submission
  obtain rfl := v.definition.eq_of_id_eq hstep habandoned.step (hid.trans hstepId)
  obtain rfl := Option.some.inj (hfind.symm.trans hattempt)
  obtain ⟨rfl, rfl⟩ := Prod.mk.inj (Except.ok.inj (hresult.symm.trans hresult'))
  have hnotSucceeded : nextState ≠ .succeeded := by
    rcases hopen with rfl | rfl <;> decide
  have hfinished : v.finishedStep row' nextState prepared.attempt.idempotencyKey =
      row'.moved nextState := if_neg hnotSucceeded
  have hfinishedState : (v.finishedStep row' nextState prepared.attempt.idempotencyKey).state =
      nextState := congrArg StepRun.state hfinished
  have hcompensable := habandoned.effects hsound.keyed (MemoryStore.keyed_of_record hrecord') rfl
    (by rw [← hstepId]; rfl) (hfinishedState ▸ hnotSucceeded) rfl
  refine ⟨t, _, hrecorded, view_of_record hrecord', ?_, ?_, rfl, rfl,
    ⟨_, congrArg StepRun.state hfinished, ?_⟩, ⟨_, _, rfl⟩, ?_⟩
  -- a step that waits leaves the run running
  · cases hsettles with
    | unaffected _ hnotFailed => rw [if_pos (hnotFailed habandoned.state)]; exact habandoned.state
    | completed _ hsucceeded => exact absurd hsucceeded hnotSucceeded
    | failed _ hfailed hnone =>
        -- a failed one ends the run when there is no effect
        have hempty := hcompensable.symm.trans ((compensationOrder_isEmpty hnone).mp rfl)
        rw [if_neg (not_not.mpr hfailed), if_pos hempty]
        rfl
    | compensating _ hfailed hsome =>
        -- and lets it compensate when there is one
        have hnotEmpty : compensable v.definition v.stepRuns v.attempts.rows ≠ [] := fun hempty =>
          List.cons_ne_nil _ _ ((compensationOrder_isEmpty hsome).mpr (hcompensable.trans hempty))
        rw [if_neg (not_not.mpr hfailed), if_neg hnotEmpty]
        rfl
  · cases hsettles <;> rfl
  · rw [← hstepId]
    rfl
  · exact (inFlight_congr howned _).trans hinFlight.symm

/-- Without an instant for the retry nothing is recorded. -/
theorem recordOutcome_raises (hs : s.WellFormed) (hv : s.view runId = some v)
    {prepared : PreparedAttempt} (habandoned : v.Abandoned prepared) {error : Error}
    (hresult : forwardResult prepared.step.retry
      (failedOutcome prepared.context .retryable "tool submission failed") s.clock =
        .error error) :
    ∃ e t, s.recordOutcome cfg (failedOutcome prepared.context .retryable
      "tool submission failed") prepared.sensitivePaths = (.error e, t) := by
  obtain ⟨hrecord, -, -⟩ := view_eq_some_iff.mp hv
  obtain rfl : runId = prepared.context.runId :=
    (MemoryStore.runId_of_record hrecord).symm.trans habandoned.runId.symm
  have hstepId : prepared.context.stepId = prepared.step.id :=
    habandoned.context.stepId.trans habandoned.stepId
  have hfind : v.findAttempt prepared.context.stepId prepared.context.attemptNumber =
      some prepared.attempt := by
    rw [habandoned.context.stepId, habandoned.context.attemptNo]
    exact (hs.sound _ v hv).findAttempt_forward habandoned.state habandoned.attempt habandoned.phase
  rcases recordOutcome_cases cfg hs (failedOutcome prepared.context .retryable
    "tool submission failed") prepared.sensitivePaths with
    ⟨e, herror⟩ | ⟨_, _, _, _, _, _, hturned⟩
  · exact ⟨e, s, herror⟩
  obtain ⟨record, _, hrecord₁, _, hwritten⟩ := hturned.own
  obtain rfl := Option.some.inj (hrecord.symm.trans hrecord₁)
  rcases hwritten with ⟨step, _, _, _, _, _, _, _, hstep, hid, _, _, _, hok, _⟩ |
    ⟨attempt, _, _, _, hattempt, hcompensation, _⟩
  · obtain rfl := v.definition.eq_of_id_eq hstep habandoned.step (hid.trans hstepId)
    exact nomatch hresult.symm.trans hok
  · obtain rfl := Option.some.inj (hfind.symm.trans hattempt)
    rw [habandoned.phase] at hcompensation
    cases hcompensation

end Shared

end ChangePilot
