import ChangePilot.System.Views

/-!
# Operations move runs

What each operation does to the views of the runs: an operation that is `Enabled`
is a move of one run and leaves the others alone.

An operation that only runs a unit of work is a move by `inStore_advances`, from what is
known of that unit.  Where futures are made or settled as well (`dispatch_advances`,
`settle_advances`), those of the run are followed next to its record.  `exec_advances`
collects all of this, one case for each operation.
-/

namespace ChangePilot

namespace Shared

variable {cfg : Deployment} {cause : Cause} {s s' : Shared} {runId : String}

/-! ## Promotion and the end of compensation -/

theorem promoteDueRetries_advances (hs : s.WellFormed) {now occurredAt : Timestamp}
    (hnow : now ≤ s.latest) :
    s.Advances cfg .other (s.inStore (promoteDueRetries runId now occurredAt)).2 := by
  refine inStore_advances (M := fun v => RunRecord.Promotes (v.RetryDue now) v) runId hs ?_ ?_ ?_
  · exact fun hnone => by simp [promoteDueRetries, hnone]
  · intro v hv
    refine (promoteDueRetries_spec hv).mono ?_
    rintro (_ | _) staged h
    exacts [fun _ => h, trivial]
  · rintro v v' hv ⟨steps, events, rfl, hevents, hsteps⟩
    refine .retriesDue hevents fun id => (hsteps id).imp_right ?_
    rintro ⟨row, hrow, ⟨hstate, last, next, hlast, hnext, hdue⟩, hready⟩
    exact ⟨row, last, next, hrow, hstate, hlast, hnext, hdue.trans hnow, hready⟩

theorem promoteDependencyReadySteps_advances (hs : s.WellFormed) {occurredAt : Timestamp} :
    s.Advances cfg .other (s.inStore (promoteDependencyReadySteps runId occurredAt)).2 := by
  refine inStore_advances (M := fun v => RunRecord.Promotes v.DependenciesMet v) runId hs ?_ ?_ ?_
  · exact fun hnone => by simp [promoteDependencyReadySteps, hnone]
  · intro v hv
    refine (promoteDependencyReadySteps_spec hv).mono ?_
    rintro (_ | _) staged h
    exacts [fun _ => h, trivial]
  · rintro v v' hv ⟨steps, events, rfl, hevents, hsteps⟩
    refine .dependenciesReady hevents fun id => (hsteps id).imp_right ?_
    rintro ⟨row, hrow, ⟨hstate, step, hstep, hid, hdependencies⟩, hready⟩
    exact ⟨step, hstep, row, hid, hrow, hstate, hdependencies, hready⟩

theorem completeCompensation_advances (hs : s.WellFormed) {occurredAt : Timestamp}
    (hsettled : ∀ v, s.view runId = some v → v.Settled []) :
    s.Advances cfg .other (s.inStore (completeCompensation runId occurredAt)).2 := by
  refine inStore_advances (M := fun v v' => v.run.state = .compensating ∧ v' = { v with
    run := v.run.moved .compensated
    events := v.events ++ [v.run.movedEvent .compensated occurredAt] }) runId hs ?_ ?_ ?_
  · exact fun hnone => by simp [completeCompensation, hnone]
  · intro v hv
    refine (completeCompensation_spec hv).mono ?_
    rintro (_ | _) staged h
    exacts [fun _ => ⟨_, h.2, h.1, rfl⟩, trivial]
  · rintro v v' hv ⟨hstate, rfl⟩
    obtain ⟨hquiet, hdrained, hpending⟩ := hsettled _ (view_of_record hv)
    exact .compensated hstate hquiet hdrained hpending (by simp)

/-! ## The approval barrier -/

/-- Without recovery work and without requests in flight the run is quiet. -/
theorem quiet_of_no_recovery_work {v : RunRecord} (hrecord : s.store.record runId = some v)
    (hdrained : s.inFlight runId = [])
    (h : uowHasPersistedRecoveryWork s.coordinator.ownedFutures s.store v.run v.definition =
      .ok false) : v.Quiet := by
  have howned : (s.coordinator.ownedFutures.filter fun owned => owned.Unpersisted runId) = [] :=
    List.map_eq_nil_iff.mp hdrained
  simp only [uowHasPersistedRecoveryWork, approvalRecoveryRequired,
    MemoryStore.runId_of_record hrecord, howned, MemoryStore.definitionOf_of_record hrecord,
    Except.bind_eq_ok_iff, MemoryStore.listAttempts_of_record hrecord, List.map_nil] at h
  obtain ⟨due, ⟨unknown, hunknown, hdue⟩, h⟩ := h
  cases due
  case true => simp at h
  cases unknown
  case true => simp at hdue
  simp only [Bool.false_eq_true, if_false, Except.bind_eq_ok_iff] at h hdue
  obtain ⟨running, hrunning, h⟩ := h
  cases running
  case true => simp at h
  have hsteps := anyStep_eq_ok hunknown
  have hsteps' := anyStep_eq_ok hrunning
  simp only [Bool.false_eq_true, if_false, MemoryStore.getStep_of_record hrecord] at hsteps hsteps'
  refine ⟨fun step hstep => ⟨fun hstate => ?_, fun hstate => ?_⟩, fun a ha => ⟨?_, ?_⟩⟩
  · obtain ⟨row, hrow, hnot⟩ := hsteps' step hstep
    simp_all [RunRecord.stateOf]
  · obtain ⟨row, hrow, hnot⟩ := hsteps step hstep
    simp_all [RunRecord.stateOf]
  · simp_all
  · simp_all

theorem establishApprovalBarrier_advances (hs : s.WellFormed) {stepId newId : String}
    {occurredAt : Timestamp}
    (hbarred : ∀ v, s.view runId = some v → v.Barred stepId) :
    s.Advances cfg .other (s.inStore (establishApprovalBarrier cfg s.coordinator.ownedFutures
      runId stepId newId occurredAt)).2 := by
  refine inStore_advances (M := fun v v' => ∃ step run approvals events,
      uowHasPersistedRecoveryWork s.coordinator.ownedFutures s.store v.run v.definition =
        .ok false ∧ step ∈ v.definition.steps ∧ step.id = stepId ∧
      ((v.run.state = .waitingApproval ∧ run = v.run) ∨
        (RunState.waitingApproval ∈ runTransitions v.run.state ∧
          run = v.run.moved .waitingApproval)) ∧
      v.BarrierApprovals approvals events ∧
      v' = { v with run := run, approvals := approvals, events := v.events ++ events })
    runId hs ?_ ?_ ?_
  · exact fun hnone => by simp [establishApprovalBarrier, hnone]
  · intro v hv
    refine (establishApprovalBarrier_spec hv).mono ?_
    rintro (_ | _) staged h
    · intro hvalid
      obtain ⟨step, run, approvals, events, hwork, hstep, hid, hrun, happrovals, hturns⟩ := h hvalid
      exact ⟨_, hturns, step, run, approvals, events, hwork, hstep, hid, hrun, happrovals, rfl⟩
    · trivial
  · rintro v v' hv ⟨step, run, approvals, events, hwork, hstep, rfl, hrun, happrovals, rfl⟩
    obtain ⟨hdrained, hready⟩ := hbarred _ (view_of_record hv)
    exact .barrier hstep hready (quiet_of_no_recovery_work hv hdrained hwork) hdrained hrun
      happrovals

/-! ## Starting an attempt -/

theorem inFlight_own (prepared : PreparedAttempt) (runId : String) :
    (s.own prepared).inFlight runId = s.inFlight runId ++
      if prepared.context.runId = runId then [(s.coordinator.nextFuture, prepared.context)]
      else [] := by
  by_cases hrunId : prepared.context.runId = runId <;>
    simp [inFlight, own, OwnedFuture.Unpersisted, hrunId]

theorem mem_inFlight {future : ℕ × ToolExecutionContext} :
    future ∈ s.inFlight runId ↔ ∃ owned ∈ s.coordinator.ownedFutures,
      owned.Unpersisted runId ∧ (owned.id, owned.context) = future := by
  simp [inFlight, and_assoc]

theorem fst_mem_ids {future : ℕ × ToolExecutionContext} (h : future ∈ s.inFlight runId) :
    future.1 ∈ s.coordinator.ids := by
  obtain ⟨owned, howned, _, rfl⟩ := mem_inFlight.mp h
  exact List.mem_map_of_mem howned

theorem distinct_own {prepared : PreparedAttempt} (h : s.coordinator.Distinct) :
    (s.own prepared).coordinator.Distinct := by
  have hids : (s.own prepared).coordinator.ids = s.coordinator.ids ++ [s.coordinator.nextFuture] := by
    simp [Coordinator.ids, own]
  constructor
  · rw [hids, List.nodup_append]
    refine ⟨h.nodup, List.nodup_singleton _, fun id hid other hother => ?_⟩
    rw [List.mem_singleton.mp hother]
    exact (h.fresh id hid).ne
  · intro id hid
    rw [hids] at hid
    rcases List.mem_append.mp hid with hid | hid
    · exact (h.fresh id hid).trans (Nat.lt_succ_self _)
    · rw [List.mem_singleton.mp hid]
      exact Nat.lt_succ_self _

theorem commitAttemptStarted_commits (attempt : StepAttempt) {base : MemoryStore} :
    Tx.Ensures (commitAttemptStarted attempt) (fun exit _ => exit.Committed) base [] := by
  simp [commitAttemptStarted, enterExecution]

/-- The start of a prepared attempt turns its run. -/
theorem commitAttemptStarted_turned (hs : s.WellFormed) {prepared : PreparedAttempt} {a : Unit}
    {next : MemoryStore}
    (hstartable : ∀ v, s.view prepared.attempt.runId = some v → v.Startable cfg prepared)
    (h : s.store.transact (commitAttemptStarted prepared.attempt) = .ok (a, next)) :
    MemoryStore.Turned prepared.attempt.runId (fun v v' => v.Started prepared.attempt v')
      s.store next := by
  refine transact_turned_of_commits _ hs (fun hnone => by simp [commitAttemptStarted, hnone])
    (commitAttemptStarted_commits _) (fun v hv => ?_) h
  cases hcase : prepared.attempt.phase with
  | probe =>
      have := (hstartable _ (view_of_record hv)).phase
      simp [hcase] at this
  | forward =>
      refine (commitAttemptStarted_forward hv hcase).mono ?_
      rintro _ _ ⟨run, row, events, hturns, hrun, hrow, hready, hevents⟩
      exact ⟨_, hturns, Or.inl ⟨hcase, run, row, events, hrun, hrow, hready, hevents, rfl⟩⟩
  | compensation =>
      refine (commitAttemptStarted_compensation hv hcase).mono ?_
      rintro _ _ ⟨events, hturns, hstate, hevents⟩
      exact ⟨_, hturns, Or.inr ⟨hcase, events, hstate, hevents, rfl⟩⟩

theorem dispatch_advances (hs : s.WellFormed) {prepared : PreparedAttempt} {submitFails : Bool}
    (hstartable : ∀ v, s.view prepared.attempt.runId = some v → v.Startable cfg prepared) :
    s.Advances cfg (.start prepared.attempt) (s.dispatch prepared submitFails).2 := by
  unfold dispatch inStore
  cases htransact : s.store.transact (commitAttemptStarted prepared.attempt) with
  | error e => exact Advances.refl hs
  | ok result =>
      obtain ⟨_, next⟩ := result
      have hturned := commitAttemptStarted_turned hs hstartable htransact
      have hcontext : prepared.context.runId = prepared.attempt.runId := by
        obtain ⟨_, _, hv, _⟩ := hturned.own
        exact (hstartable _ (view_of_record hv)).runId
      -- whether the executor takes the request
      by_cases hfails : submitFails
      · simp only [hfails, if_true]
        refine .of_turned hturned rfl rfl (fun _ _ => rfl) hs.distinct fun v v' hv h => ?_
        exact .of_started h (hstartable _ (view_of_record hv)) .notSubmitted
      · simp only [hfails, if_false, Bool.false_eq_true]
        refine .of_turned hturned rfl rfl (fun other hother => ?_) (distinct_own hs.distinct)
          fun v v' hv h => ?_
        · rw [inFlight_own, if_neg (fun h => hother (h.symm.trans hcontext)), List.append_nil]
          rfl
        · have hstartable := hstartable _ (view_of_record hv)
          have hsubmission : (s.viewOf prepared.attempt.runId v).Submission prepared.attempt
              (s.inFlight prepared.attempt.runId ++
                [(s.coordinator.nextFuture, prepared.context)]) :=
            .submitted (fun future hfuture => (hs.distinct.fresh _ (fst_mem_ids hfuture)).ne)
              hcontext hstartable.context.stepId hstartable.context.attemptNo
              hstartable.context.phase
          exact viewOf_eq ((inFlight_own ..).trans (by rw [if_pos hcontext])) rfl v' ▸
            RunMove.of_started h hstartable hsubmission

/-! ## Recording an outcome -/

theorem persistOutcome_commits (cfg : Deployment) (outcome : ExecutionOutcome)
    (completedAt : Timestamp) (sensitivePaths : List (List String)) {base : MemoryStore} :
    Tx.Ensures (persistOutcome cfg outcome completedAt sensitivePaths)
      (fun exit _ => exit.Committed) base [] := by
  simp [persistOutcome]

@[simp] theorem rememberUnknown_store (unknown : Bool) :
    (s.rememberUnknown runId unknown).store = s.store := by
  unfold rememberUnknown; split <;> rfl

@[simp] theorem rememberUnknown_clock (unknown : Bool) :
    (s.rememberUnknown runId unknown).clock = s.clock := by
  unfold rememberUnknown; split <;> rfl

@[simp] theorem rememberUnknown_latest (unknown : Bool) :
    (s.rememberUnknown runId unknown).latest = s.latest := by
  unfold rememberUnknown; split <;> rfl

@[simp] theorem rememberUnknown_ownedFutures (unknown : Bool) :
    (s.rememberUnknown runId unknown).coordinator.ownedFutures = s.coordinator.ownedFutures := by
  unfold rememberUnknown; split <;> rfl

@[simp] theorem rememberUnknown_nextFuture (unknown : Bool) :
    (s.rememberUnknown runId unknown).coordinator.nextFuture = s.coordinator.nextFuture := by
  unfold rememberUnknown; split <;> rfl

/-- The outcome is recorded, or nothing has happened. -/
theorem recordOutcome_cases (cfg : Deployment) (hs : s.WellFormed) (outcome : ExecutionOutcome)
    (sensitivePaths : List (List String)) :
    (∃ e, s.recordOutcome cfg outcome sensitivePaths = (.error e, s)) ∨ ∃ s',
      s.recordOutcome cfg outcome sensitivePaths = (.ok (), s') ∧
        s'.clock = s.clock ∧ s'.latest = s.latest ∧
        s'.coordinator.ownedFutures = s.coordinator.ownedFutures ∧
        s'.coordinator.nextFuture = s.coordinator.nextFuture ∧
        MemoryStore.Turned outcome.runId (fun v v' => v.ForwardOutcome outcome s.clock v' ∨
          v.CompensationOutcome outcome s.clock v') s.store s'.store := by
  unfold recordOutcome
  cases htransact : s.store.transact (persistOutcome cfg outcome s.clock sensitivePaths) with
  | error e => exact Or.inl ⟨e, rfl⟩
  | ok result =>
      obtain ⟨unknown, next⟩ := result
      refine Or.inr ⟨_, rfl, by simp, by simp, by simp, by simp, ?_⟩
      rw [rememberUnknown_store]
      exact transact_turned_of_commits _ hs (fun hnone => by simp [persistOutcome, hnone])
        (persistOutcome_commits _ _ _ _) (fun v hv => persistOutcome_spec hv) htransact

theorem inFlight_congr {other : Shared}
    (h : other.coordinator.ownedFutures = s.coordinator.ownedFutures) (runId : String) :
    other.inFlight runId = s.inFlight runId := by
  simp only [inFlight, h]

theorem persistSubmissionFailure_advances (hs : s.WellFormed) {prepared : PreparedAttempt}
    {errorClass : ErrorClass} {message : String} {sensitivePaths : List (List String)}
    (hunsubmitted : ∀ v, s.view prepared.context.runId = some v → v.Unsubmitted prepared) :
    s.Advances cfg (.outcome (failedOutcome prepared.context errorClass message))
      (s.recordOutcome cfg (failedOutcome prepared.context errorClass message)
        sensitivePaths).2 := by
  rcases recordOutcome_cases cfg hs
    (failedOutcome prepared.context errorClass message) sensitivePaths with
    ⟨e, h⟩ | ⟨s', h, hclock, hlatest, howned, hnext, hturned⟩
  · rw [h]
    exact Advances.refl hs
  · rw [h]
    refine .of_turned hturned hclock hlatest (fun _ _ => inFlight_congr howned _)
      (hs.distinct.of_sublist (by rw [Coordinator.ids, howned]; exact List.Sublist.refl _) hnext)
      fun v v' hv hwritten => ?_
    obtain ⟨⟨attempt, hmem, hrunning, hfor⟩, hnone⟩ := hunsubmitted _ (view_of_record hv)
    have := RunMove.of_outcome cfg (v := s.viewOf _ v) (MemoryStore.runId_of_record hv).symm
      (.notSubmitted hmem hrunning hfor.stepId.symm hfor.attemptNo.symm hfor.phase.symm
        (by simpa only [hfor.stepId, hfor.attemptNo, hfor.phase] using hnone)) hwritten
    exact viewOf_eq (inFlight_congr howned prepared.context.runId) hlatest v' ▸ this

/-! ## Settling a future -/

theorem inFlight_dropOwned (id : ℕ) :
    (s.dropOwned id).inFlight runId = (s.inFlight runId).filter fun future => future.1 ≠ id := by
  simp [inFlight, dropOwned, List.filter_map, List.filter_filter, Function.comp_def,
    Bool.and_comm]

theorem inFlight_updateOwned (id : ℕ) :
    (s.updateOwned id fun owned => { owned with outcomePersisted := true }).inFlight runId =
      (s.inFlight runId).filter fun future => future.1 ≠ id := by
  simp only [inFlight, updateOwned]
  induction s.coordinator.ownedFutures with
  | nil => rfl
  | cons owned rest ih =>
      by_cases hid : owned.id = id
      · subst hid
        have hnot : ¬ ({ owned with outcomePersisted := true } : OwnedFuture).Unpersisted runId :=
          fun h => absurd h.2 (by simp)
        by_cases howned : owned.Unpersisted runId <;> simpa [hnot, howned] using ih
      · by_cases howned : owned.Unpersisted runId <;> simpa [hid, howned] using ih

theorem inFlight_settle (owned : OwnedFuture) :
    (s.settle owned).inFlight runId =
      (s.inFlight runId).filter fun future => future.1 ≠ owned.id := by
  unfold settle
  split
  · exact inFlight_dropOwned owned.id
  · exact inFlight_updateOwned owned.id

theorem ids_settle (owned : OwnedFuture) :
    (s.settle owned).coordinator.ids.Sublist s.coordinator.ids := by
  unfold settle
  split
  · exact List.filter_sublist.map _
  · have : (s.updateOwned owned.id fun owned => { owned with outcomePersisted := true }
        ).coordinator.ids = s.coordinator.ids := by
      simp only [Coordinator.ids, updateOwned, List.map_map]
      exact List.map_congr_left fun other _ => by simp only [Function.comp]; split <;> rfl
    exact this ▸ List.Sublist.refl _

/-- A future with an outcome recorded, or of another run, is not among those of the
run. -/
theorem filter_inFlight_eq_self (hdistinct : s.coordinator.Distinct) {owned : OwnedFuture}
    (howned : owned ∈ s.coordinator.ownedFutures) (hnot : ¬ owned.Unpersisted runId) :
    ((s.inFlight runId).filter fun future => future.1 ≠ owned.id) = s.inFlight runId := by
  refine List.filter_eq_self.mpr fun future hfuture => ?_
  obtain ⟨other, hother, hunpersisted, rfl⟩ := mem_inFlight.mp hfuture
  refine decide_eq_true fun hid => hnot ?_
  rwa [← List.inj_on_of_nodup_map hdistinct.nodup hother howned hid]

/-- The outcome of a future in flight has been recorded, and the future settled. -/
theorem settle_advances (hs : s.WellFormed) {owned : OwnedFuture} {outcome : ExecutionOutcome}
    {s' : Shared} (howned : owned ∈ s.coordinator.ownedFutures)
    (hpersisted : owned.outcomePersisted = false) (hof : outcome.Of owned.context)
    (hclock : s'.clock = s.clock) (hlatest : s'.latest = s.latest)
    (hinFlight : ∀ runId, s'.inFlight runId =
      (s.inFlight runId).filter fun future => future.1 ≠ owned.id)
    (hdistinct : s'.coordinator.Distinct)
    (hturned : MemoryStore.Turned outcome.runId (fun v v' => v.ForwardOutcome outcome s.clock v' ∨
      v.CompensationOutcome outcome s.clock v') s.store s'.store) :
    s.Advances cfg (.outcome outcome) s' := by
  refine .of_turned hturned hclock hlatest (fun other hother => ?_) hdistinct
    fun v v' hv hwritten => ?_
  · rw [hinFlight]
    exact filter_inFlight_eq_self hs.distinct howned fun h => hother (hof.runId.trans h.1).symm
  · have hmem : (owned.id, owned.context) ∈ (s.viewOf outcome.runId v).inFlight :=
      mem_inFlight.mpr ⟨owned, howned, ⟨hof.runId.symm, hpersisted⟩, rfl⟩
    have := RunMove.of_outcome cfg (MemoryStore.runId_of_record hv).symm
      (.inFlight hmem hof.stepId.symm hof.attemptNo.symm rfl) hwritten
    exact viewOf_eq (hinFlight _) hlatest v' ▸ this

@[simp] theorem settle_store (owned : OwnedFuture) : (s.settle owned).store = s.store := by
  unfold settle; split <;> rfl

@[simp] theorem settle_clock (owned : OwnedFuture) : (s.settle owned).clock = s.clock := by
  unfold settle; split <;> rfl

@[simp] theorem settle_latest (owned : OwnedFuture) : (s.settle owned).latest = s.latest := by
  unfold settle; split <;> rfl

@[simp] theorem settle_nextFuture (owned : OwnedFuture) :
    (s.settle owned).coordinator.nextFuture = s.coordinator.nextFuture := by
  unfold settle; split <;> rfl

/-- The outcome of a future in flight is recorded, and the future settled, or nothing
happens. -/
theorem recordAndSettle_advances (cfg : Deployment) (sensitivePaths : List (List String))
    (hs : s.WellFormed) {owned : OwnedFuture} {outcome : ExecutionOutcome}
    (howned : owned ∈ s.coordinator.ownedFutures) (hpersisted : owned.outcomePersisted = false)
    (hof : outcome.Of owned.context) :
    (∃ e, s.recordOutcome cfg outcome sensitivePaths = (.error e, s)) ∨
      ∃ s', s.recordOutcome cfg outcome sensitivePaths = (.ok (), s') ∧
        s.Advances cfg (.outcome outcome) (s'.settle owned) := by
  refine (recordOutcome_cases cfg hs outcome sensitivePaths).imp_right ?_
  rintro ⟨s', h, hclock, hlatest, hfutures, hnext, hturned⟩
  have hids : s'.coordinator.ids = s.coordinator.ids := by simp only [Coordinator.ids, hfutures]
  refine ⟨s', h, settle_advances hs howned hpersisted hof (by simpa) (by simpa)
    (fun runId => ?_) ?_ (by simpa)⟩
  · rw [inFlight_settle, inFlight_congr hfutures]
  · exact hs.distinct.of_sublist (hids ▸ ids_settle owned) (by simpa)

theorem findOwned_eq_some {id : ℕ} {owned : OwnedFuture} (h : s.findOwned id = some owned) :
    owned ∈ s.coordinator.ownedFutures ∧ owned.id = id :=
  ⟨List.mem_of_find?_eq_some h, by simpa using List.find?_some h⟩

/-! ## Collecting -/

theorem raisedOutcome_of (context : ToolExecutionContext) (exception : ToolException) :
    (raisedOutcome context exception).Of context := ⟨rfl, rfl, rfl⟩

theorem outcomeFromFuture_of {owned : OwnedFuture} {outcome : ExecutionOutcome}
    (h : outcomeFromFuture owned = some outcome) : outcome.Of owned.context := by
  unfold outcomeFromFuture at h
  split at h
  · simp at h
  · rename_i ending _
    obtain rfl := Option.some.inj h
    cases ending with
    | ok result => exact ⟨rfl, rfl, rfl⟩
    | error exception => exact raisedOutcome_of ..
  · obtain rfl := Option.some.inj h
    exact raisedOutcome_of ..

theorem collectedOutcome_of {owned : OwnedFuture} {now : Timestamp} {outcome : ExecutionOutcome}
    (h : collectedOutcome owned now = some outcome) : outcome.Of owned.context := by
  unfold collectedOutcome at h
  split at h
  · exact outcomeFromFuture_of (by rw [‹outcomeFromFuture owned = _›, ← h])
  · split at h
    · obtain rfl := Option.some.inj h
      exact ⟨rfl, rfl, rfl⟩
    · simp at h

/-- What the turn for a future is about. -/
def collectCause (s : Shared) (id : ℕ) (now : Timestamp) : Cause :=
  match s.findOwned id with
  | none => .other
  | some owned => ((collectedOutcome owned now).map Cause.outcome).getD .other

theorem collectFuture_advances (hs : s.WellFormed) (id : ℕ) (now : Timestamp) :
    s.Advances cfg (s.collectCause id now) (s.collectFuture cfg id now).2 := by
  unfold collectFuture collectCause
  cases hfind : s.findOwned id with
  | none => exact Advances.refl hs
  | some owned =>
      obtain ⟨howned, rfl⟩ := findOwned_eq_some hfind
      by_cases hpersisted : owned.outcomePersisted
      · simp only [hpersisted, if_true]
        split
        · refine .of_still rfl rfl rfl (fun runId => ?_)
            (hs.distinct.of_sublist (List.filter_sublist.map _) rfl)
          rw [inFlight_dropOwned]
          exact filter_inFlight_eq_self hs.distinct howned fun h => by simp [h.2] at hpersisted
        · exact Advances.refl hs
      · simp only [hpersisted, Bool.false_eq_true, if_false]
        cases hcollected : collectedOutcome owned now with
        | none => exact Advances.refl hs
        | some outcome =>
            rcases recordAndSettle_advances cfg owned.sensitivePaths hs howned
              (by simpa using hpersisted) (collectedOutcome_of hcollected) with
              ⟨e, h⟩ | ⟨s', h, hadvances⟩
            · simp only [h]
              exact Advances.refl hs
            · simp only [h]
              exact hadvances

/-! ## Closing -/

theorem closingOutcome_of (owned : OwnedFuture) (cancelSucceeds : Bool) :
    (closingOutcome owned cancelSucceeds).2.Of owned.context := by
  unfold closingOutcome
  split
  · exact outcomeFromFuture_of ‹_›
  · split <;> exact ⟨rfl, rfl, rfl⟩

/-- Only the state of a future that is being closed changes. -/
theorem closingOutcome_eq (owned : OwnedFuture) (cancelSucceeds : Bool) :
    ∃ state, (closingOutcome owned cancelSucceeds).1 = { owned with state := state } := by
  unfold closingOutcome
  split
  · exact ⟨_, rfl⟩
  · split <;> exact ⟨_, rfl⟩

/-- Nothing that a view shows has changed before. -/
theorem Advances.of_same {other : Shared} (h : other.Advances cfg cause s')
    (hstore : other.store = s.store) (hclock : other.clock = s.clock)
    (hlatest : other.latest = s.latest)
    (hinFlight : ∀ runId, other.inFlight runId = s.inFlight runId) : s.Advances cfg cause s' where
  definitions := h.definitions.trans (by rw [hstore])
  latest := h.latest.trans hlatest
  clock := h.clock.trans hclock
  runs runId := by
    have hview : other.view runId = s.view runId :=
      view_congr (hstore ▸ .refl _) (by rw [hstore]) (hinFlight runId) hlatest
    have := h.runs runId
    rwa [hstore, hinFlight, hview] at this
  distinct := h.distinct

/-- A change of the states of futures is not seen. -/
theorem still_of_map (other : Shared) (hs : s.WellFormed) (f : OwnedFuture → OwnedFuture)
    (hstore : other.store = s.store) (hclock : other.clock = s.clock)
    (hlatest : other.latest = s.latest)
    (hfutures : other.coordinator.ownedFutures = s.coordinator.ownedFutures.map f)
    (hnext : other.coordinator.nextFuture = s.coordinator.nextFuture)
    (hf : ∀ owned ∈ s.coordinator.ownedFutures, ∃ state, f owned = { owned with state := state }) :
    (∀ runId, other.inFlight runId = s.inFlight runId) ∧ s.Advances cfg cause other := by
  have hinFlight (runId : String) : other.inFlight runId = s.inFlight runId := by
    simp only [inFlight, hfutures, List.filter_map, List.map_map]
    rw [List.filter_congr (q := fun owned => owned.Unpersisted runId) fun owned howned => ?_]
    · refine List.map_congr_left fun owned howned => ?_
      obtain ⟨state, hstate⟩ := hf owned (List.mem_of_mem_filter howned)
      simp only [Function.comp, hstate]
    · obtain ⟨state, hstate⟩ := hf owned howned
      exact decide_eq_decide.mpr (by rw [hstate]; exact Iff.rfl)
  have hids : other.coordinator.ids = s.coordinator.ids := by
    simp only [Coordinator.ids, hfutures, List.map_map]
    refine List.map_congr_left fun owned howned => ?_
    obtain ⟨state, hstate⟩ := hf owned howned
    simp only [Function.comp, hstate]
  exact ⟨hinFlight, .of_still hstore hclock hlatest hinFlight
    (hs.distinct.of_sublist (hids ▸ List.Sublist.refl _) hnext)⟩

/-- What the turn for a future is about, when the coordinator is closed. -/
def closeCause (s : Shared) (id : ℕ) (cancelSucceeds : Bool) : Cause :=
  match s.findOwned id with
  | none => .other
  | some owned => .outcome (closingOutcome owned cancelSucceeds).2


theorem closeFuture_advances (hs : s.WellFormed) (id : ℕ) (cancelSucceeds : Bool) :
    s.Advances cfg (s.closeCause id cancelSucceeds) (s.closeFuture cfg id cancelSucceeds).2 := by
  unfold closeFuture closeCause
  cases hfind : s.findOwned id with
  | none => exact Advances.refl hs
  | some owned =>
      obtain ⟨howned, rfl⟩ := findOwned_eq_some hfind
      by_cases hpersisted : owned.outcomePersisted
      · simp only [hpersisted, if_true]
        exact Advances.refl hs
      · simp only [hpersisted, Bool.false_eq_true, if_false]
        obtain ⟨state, hclosing⟩ := closingOutcome_eq owned cancelSucceeds
        have hof := closingOutcome_of owned cancelSucceeds
        rw [hclosing]
        generalize (closingOutcome owned cancelSucceeds).2 = outcome at hof ⊢
        let closed := s.updateOwned owned.id fun _ => { owned with state := state }
        obtain ⟨hinFlight, hstill⟩ : (∀ runId, closed.inFlight runId = s.inFlight runId) ∧
            s.Advances cfg .other closed := still_of_map closed hs
          (fun other => if other.id = owned.id then { owned with state := state } else other)
          rfl rfl rfl rfl rfl fun other hother => by
            split
            · obtain rfl := List.inj_on_of_nodup_map hs.distinct.nodup hother howned ‹_›
              exact ⟨state, rfl⟩
            · exact ⟨other.state, rfl⟩
        have hmem : { owned with state := state } ∈ closed.coordinator.ownedFutures :=
          List.mem_map.mpr ⟨owned, howned, if_pos rfl⟩
        rcases recordAndSettle_advances cfg owned.sensitivePaths (hstill.wellFormed hs) hmem
          (by simpa using hpersisted) hof with ⟨e, h⟩ | ⟨s', h, hadvances⟩
        · simp only [closed] at h
          simp only [h]
          exact .of_still rfl rfl rfl hinFlight hstill.distinct
        · simp only [closed] at h
          simp only [h]
          exact hadvances.of_same rfl rfl rfl hinFlight

theorem awaitFutures_advances (hs : s.WellFormed)
    (endings : ℕ → Except ToolException ToolExecutionResult) :
    s.Advances cfg .other (s.awaitFutures endings) := by
  refine (still_of_map (s.awaitFutures endings) hs
    (fun owned => if owned.state.Done then owned else
      { owned with state := .done (endings owned.id) }) rfl rfl rfl rfl rfl fun owned _ => ?_).2
  by_cases hdone : owned.state.Done
  · exact ⟨owned.state, if_pos hdone⟩
  · exact ⟨_, if_neg hdone⟩

/-! ## Recovery -/

theorem recoverAttempt_advances (hs : s.WellFormed) {answers : ProbeAnswers} {stepId : String}
    {expected : StepAttempt} {occurredAt : Timestamp}
    (hdue : ∀ v, s.view runId = some v → v.Due stepId expected) :
    s.Advances cfg (.recovery runId stepId expected answers occurredAt)
      (s.inStore (recoverAttempt cfg answers runId stepId expected occurredAt)).2 := by
  refine inStore_advances (M := fun v v' => RunMove cfg (s.viewOf runId v)
    (.recovery runId stepId expected answers occurredAt) (s.viewOf runId v')) runId hs ?_ ?_
    fun _ _ _ hmove => hmove
  · exact fun hnone => by simp [recoverAttempt, hnone]
  · intro v hv
    obtain rfl := MemoryStore.runId_of_record hv
    obtain ⟨hstate, hunresolved⟩ := hdue _ (view_of_record hv)
    refine (recoverAttempt_spec hv).mono ?_
    rintro (_ | _) staged h
    case leave => trivial
    intro _
    obtain ⟨step, row, attempt, v', hturns, hstep, rfl, hrow, hattempt, hattemptNo, hphase,
      hdecided⟩ := h
    have hunresolved : unresolvedAmong row (v.stepAttempts step.id) = some attempt :=
      hunresolved row attempt hrow hattempt hattemptNo hphase
    have hexpected := And.intro hattemptNo.symm hphase.symm
    refine ⟨v', hturns, ?_⟩
    rcases hdecided with ⟨output, hprobe, changed, result, run, events, hchanged, hsettles,
      hevents, rfl⟩ | ⟨hprobe, changed, events, hchanged, hevents, rfl⟩ |
      ⟨htransition, run, hrun, hunproven, changed, events, hchanged, hevents, rfl⟩
    · exact .recoveredApplied hstep hrow hunresolved hexpected hprobe hstate hchanged hsettles hevents
    · exact .recoveredNotApplied hstep hrow hunresolved hexpected hprobe hchanged hevents
    · exact .recoveredManual hstep hrow hunresolved hexpected htransition hrun hchanged hevents
        hunproven

/-! ## Decisions and cancellation -/

theorem decide_advances (hs : s.WellFormed) {runtime : Runtime}
    {requestId bindingDigest actor reason : String} {decision : ApprovalDecision}
    {expectedVersion : ℤ} {occurredAt : Timestamp} :
    s.Advances cfg .operator (s.inStore (ApprovalService.decide runtime runId requestId decision
      expectedVersion bindingDigest actor reason occurredAt)).2 := by
  refine inStore_advances (M := fun v v' => RunMove cfg (s.viewOf runId v) .operator
    (s.viewOf runId v')) runId hs ?_ ?_ fun _ _ _ hmove => hmove
  · intro hnone
    unfold ApprovalService.decide
    simp only [Tx.ensures_bind, Tx.ensures_read, Tx.ensures_require, Tx.view_nil]
    intro request hrequest run hrun
    have hrunId : request.runId = runId := congrArg (fun key => (ofLex key).1)
      ((KeyedTable.get_eq_some_iff _).mp hrequest).2
    rw [hrunId, hnone] at hrun
    exact absurd hrun (by simp)
  · intro v hv
    refine (decide_spec hv).mono ?_
    rintro (_ | _) staged h
    case leave => trivial
    intro _
    obtain ⟨request, target, actor, reason, decisionEvent, hrequest, _, hpending, hstate, htarget,
      hdecision, htype, hrequestId, hturns⟩ := h
    refine ⟨_, hturns, ?_⟩
    rw [hstate] at htarget
    have hmove : RunMove cfg (s.viewOf runId v) .operator { s.viewOf runId v with
        run := v.run.moved target
        approvals := v.approvals.put (request.decided decision actor reason occurredAt)
        events := v.events ++ decisionEvent :: [v.run.movedEvent target occurredAt] } :=
      .decided hrequest hpending hstate htarget (decisionTarget_running_iff hdecision) htype
        hrequestId (by simp)
    simpa [viewOf] using hmove

theorem cancelRun_advances (hs : s.WellFormed) {occurredAt : Timestamp} :
    s.Advances cfg .operator (s.inStore (WorkflowService.cancelRun runId occurredAt)).2 := by
  refine inStore_advances (M := fun v v' => RunMove cfg (s.viewOf runId v) .operator
    (s.viewOf runId v')) runId hs ?_ ?_ fun _ _ _ hmove => hmove
  · exact fun hnone => by simp [WorkflowService.cancelRun, hnone]
  · intro v hv
    refine (cancelRun_spec hv).mono ?_
    rintro (_ | _) staged ⟨htransition, hturns⟩
    exacts [fun _ => ⟨_, hturns, .cancelled htransition (by simp)⟩, trivial]

end Shared

/-! ## Operations -/

/-- When the programs may perform an operation. -/
def Op.Enabled (cfg : Deployment) (s : Shared) : Op → Prop
  | .promoteDueRetries _ instant => instant ≤ s.latest
  | .establishApprovalBarrier runId stepId => ∀ v, s.view runId = some v → v.Barred stepId
  | .dispatch prepared =>
      ∀ v, s.view prepared.attempt.runId = some v → v.Startable cfg prepared
  | .persistSubmissionFailure prepared _ =>
      ∀ v, s.view prepared.context.runId = some v → v.Unsubmitted prepared
  | .completeCompensation runId => ∀ v, s.view runId = some v → v.Settled []
  | .recoverAttempt runId stepId attempt => ∀ v, s.view runId = some v → v.Due stepId attempt
  | _ => True

/-- What an operation is about. -/
def Op.cause (inputs : Inputs) (s : Shared) : Op → Cause
  | .dispatch prepared => .start prepared.attempt
  | .collectFuture id instant => s.collectCause id instant
  | .closeFuture id => s.closeCause id inputs.cancelSucceeds
  | .persistSubmissionFailure prepared errorClass =>
      .outcome (failedOutcome prepared.context errorClass "tool submission failed")
  | .recoverAttempt runId stepId attempt =>
      .recovery runId stepId attempt inputs.answers s.clock
  | _ => .other

theorem exec_advances {cfg : Deployment} {s : Shared} (hs : s.WellFormed) (op : Op)
    (henabled : op.Enabled cfg s) (inputs : Inputs) :
    s.Advances cfg (op.cause inputs s) (exec cfg op inputs s).2 := by
  cases op with
  | markClosed =>
      exact .of_still rfl rfl rfl (fun _ => rfl) (hs.distinct.of_sublist (List.Sublist.refl _) rfl)
  | collectFuture id instant => exact Shared.collectFuture_advances hs id instant
  | closeFuture id => exact Shared.closeFuture_advances hs id inputs.cancelSucceeds
  | awaitFutures => exact Shared.awaitFutures_advances hs inputs.endings
  | promoteDueRetries => exact Shared.promoteDueRetries_advances hs henabled
  | promoteDependencyReadySteps => exact Shared.promoteDependencyReadySteps_advances hs
  | establishApprovalBarrier => exact Shared.establishApprovalBarrier_advances hs henabled
  | dispatch => exact Shared.dispatch_advances hs henabled
  | persistSubmissionFailure => exact Shared.persistSubmissionFailure_advances hs henabled
  | completeCompensation => exact Shared.completeCompensation_advances hs henabled
  | recoverAttempt => exact Shared.recoverAttempt_advances hs henabled
  | _ => exact .refl hs

end ChangePilot
