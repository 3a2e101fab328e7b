import ChangePilot.System.RunInvariants
import ChangePilot.System.UnitSpecs

/-!
# Views of the shared state

The view of each run in the shared state, and what it means that the shared state
`Advances`: one run makes a move, and the others stay as they are.
-/

namespace ChangePilot

/-! ## When a run admits an operation -/

namespace RunView

variable (v : RunView)

/-- A barrier may be put up before the step. -/
structure Barred (stepId : String) : Prop where
  drained : v.inFlight = []
  ready : v.stateOf stepId = some .ready

/-- The run is being compensated, with nothing forward left and nothing in flight. -/
structure Settled (pending : List StepDefinition) : Prop where
  quiet : v.Quiet
  drained : v.inFlight = []
  pending : pendingCompensations v.definition v.stepRuns v.attempts.rows = .ok pending

/-- The prepared attempt may be started. -/
structure Startable (cfg : Deployment) (prepared : PreparedAttempt) : Prop where
  next : v.IsNext prepared.step.id prepared.attempt.phase prepared.attempt
  runId : prepared.context.runId = prepared.attempt.runId
  context : prepared.context.IsFor prepared.attempt
  phase : (prepared.attempt.phase = .forward ∧ prepared.step ∈ v.definition.steps ∧
      v.Admitted cfg prepared.step) ∨
    (prepared.attempt.phase = .compensation ∧ ∃ rest, v.Settled (prepared.step :: rest))

/-- The start of the prepared attempt is recorded, and its request is in nobody's
hands. -/
structure Unsubmitted (prepared : PreparedAttempt) : Prop where
  recorded : ∃ attempt ∈ v.attempts.rows, attempt.status = .running ∧
    prepared.context.IsFor attempt
  notInFlight : ∀ future ∈ v.inFlight, ¬ (future.2.stepId = prepared.context.stepId ∧
    future.2.attemptNumber = prepared.context.attemptNumber ∧
      future.2.phase = prepared.context.phase)

/-- The attempt is still the unresolved one of its step, if it is there. -/
structure Due (stepId : String) (expected : StepAttempt) : Prop where
  state : v.run.state ≠ .failed
  unresolved : ∀ row attempt, v.steps stepId = some row → attempt ∈ v.stepAttempts stepId →
    attempt.attemptNo = expected.attemptNo → attempt.phase = expected.phase →
      unresolvedAmong row (v.stepAttempts stepId) = some attempt

end RunView

/-! ## Moves by the writes of a unit of work -/

/-- The start of an attempt is written. -/
def RunRecord.Started (v : RunRecord) (attempt : StepAttempt) (v' : RunRecord) : Prop :=
  (attempt.phase = .forward ∧ ∃ run row events,
    ((v.run.state = .pending ∧ run = v.run.moved .running) ∨
      (v.run.state = .running ∧ run = v.run)) ∧
    v.steps attempt.stepId = some row ∧ row.state = .ready ∧ (∀ event ∈ events, ¬ event.Gate) ∧
    v' = { v with
      run := run
      steps := Function.update v.steps attempt.stepId (some (row.moved .running))
      attempts := v.attempts.put attempt
      events := v.events ++ events ++ [.toolAttemptStarted attempt.runId attempt.stepId
        attempt.attemptId attempt.attemptNo .forward attempt.startedAt .running
        (row.revision + 1)] }) ∨
  (attempt.phase = .compensation ∧ ∃ events, v.run.state = .compensating ∧
    (∀ event ∈ events, ¬ event.Gate) ∧
    v' = { v with attempts := v.attempts.put attempt, events := v.events ++ events })

section

variable {v : RunView} {v' : RunRecord} {futures : List (ℕ × ToolExecutionContext)}

theorem RunMove.of_started {cfg : Deployment} {prepared : PreparedAttempt}
    (h : v.Started prepared.attempt v') (hstartable : v.Startable cfg prepared)
    (hfutures : v.Submission prepared.attempt futures) :
    RunMove cfg v (.start prepared.attempt) { v' with inFlight := futures, latest := v.latest } := by
  have hnext := hstartable.next
  rcases hstartable.phase with ⟨hphase, hstep, hadmitted⟩ | ⟨hphase, rest, hsettled⟩
  · rcases h with ⟨_, run, row, events, hrun, hrow, hready, hevents, rfl⟩ | ⟨hother, _⟩
    · rw [hphase] at hnext
      have hmove := RunMove.forwardStarted hstep hrun (hnext.stepId ▸ hrow) hready hnext hadmitted
        hfutures hevents
      rwa [← hnext.stepId] at hmove
    · exact absurd (hphase.symm.trans hother) (by decide)
  · rcases h with ⟨hother, _⟩ | ⟨_, events, hstate, hevents, rfl⟩
    · exact absurd (hphase.symm.trans hother) (by decide)
    · rw [hphase] at hnext
      exact .compensationStarted hstate hsettled.quiet hsettled.drained hsettled.pending hnext
        hfutures hevents

theorem RunMove.of_outcome (cfg : Deployment) {outcome : ExecutionOutcome} {phase : ToolExecutionPhase}
    {completedAt : Timestamp} (hrunId : outcome.runId = v.run.runId)
    (hsource : v.Outstanding outcome phase futures)
    (h : v.ForwardOutcome outcome completedAt v' ∨ v.CompensationOutcome outcome completedAt v') :
    RunMove cfg v (.outcome outcome) { v' with inFlight := futures, latest := v.latest } := by
  rcases h with ⟨step, row, attempt, nextState, nextAttemptAt, result, run, events, hstep, hid,
    hrow, hattempt, hphase, hresult, htransition, hsettles, hevents, rfl⟩ |
    ⟨attempt, result, run, events, hattempt, hphase, hsettles, hevents, rfl⟩
  · exact .forwardFinished hrunId hsource hstep hid hrow hattempt hphase hresult htransition
      hsettles hevents
  · exact .compensationFinished hrunId hsource hattempt hphase hsettles hevents

end

/-- The outcome is one of the request. -/
structure ExecutionOutcome.Of (outcome : ExecutionOutcome) (context : ToolExecutionContext) :
    Prop where
  runId : outcome.runId = context.runId
  stepId : outcome.stepId = context.stepId
  attemptNo : outcome.attemptNo = context.attemptNumber

/-! ## Views -/

def Coordinator.ids (coordinator : Coordinator) : List ℕ :=
  coordinator.ownedFutures.map OwnedFuture.id

/-- The identities of the futures are distinct, and the next one is new. -/
structure Coordinator.Distinct (coordinator : Coordinator) : Prop where
  nodup : coordinator.ids.Nodup
  fresh : ∀ id ∈ coordinator.ids, id < coordinator.nextFuture

theorem Coordinator.Distinct.of_sublist {coordinator changed : Coordinator}
    (h : coordinator.Distinct) (hids : changed.ids.Sublist coordinator.ids)
    (hnext : changed.nextFuture = coordinator.nextFuture) : changed.Distinct where
  nodup := h.nodup.sublist hids
  fresh id hid := hnext ▸ h.fresh id (hids.subset hid)

namespace Shared

/-- The requests of the run whose outcomes are not recorded. -/
def inFlight (s : Shared) (runId : String) : List (ℕ × ToolExecutionContext) :=
  (s.coordinator.ownedFutures.filter fun owned => owned.Unpersisted runId).map
    fun owned => (owned.id, owned.context)

/-- A record of the run with what the process and the clock add to it. -/
def viewOf (s : Shared) (runId : String) (record : RunRecord) : RunView :=
  { record with inFlight := s.inFlight runId, latest := s.latest }

def view (s : Shared) (runId : String) : Option RunView :=
  (s.store.record runId).map (s.viewOf runId)

/-- What holds of the shared state whatever happens. -/
structure WellFormed (s : Shared) : Prop where
  known : ∀ runId run, s.store.runs.get runId = some run → (s.store.definitionOf run).isSome
  vacant : ∀ runId, s.store.runs.get runId = none →
    s.store.Agree runId {} ∧ s.inFlight runId = []
  sound : ∀ runId v, s.view runId = some v → v.Sound
  distinct : s.coordinator.Distinct
  clock : s.clock ≤ s.latest

/-- Each run makes a move or stays as it is; the futures keep distinct identities. -/
structure Advances (cfg : Deployment) (cause : Cause) (s s' : Shared) : Prop where
  definitions : s'.store.definitions = s.store.definitions
  latest : s'.latest = s.latest
  clock : s'.clock = s.clock
  runs : ∀ runId, (s'.store.Agree runId s.store ∧ s'.inFlight runId = s.inFlight runId) ∨
    ∃ v v', s.view runId = some v ∧ s'.view runId = some v' ∧ RunMove cfg v cause v'
  distinct : s'.coordinator.Distinct

variable {cfg : Deployment} {cause : Cause} {s s' : Shared} {runId : String}

theorem view_eq_some_iff {v : RunView} :
    s.view runId = some v ↔ s.store.record runId = some v.toRunRecord ∧
      v.inFlight = s.inFlight runId ∧ v.latest = s.latest := by
  obtain ⟨record, inFlight, latest⟩ := v
  simp only [view, viewOf, Option.map_eq_some_iff, RunView.mk.injEq]
  constructor
  · rintro ⟨_, hrecord, rfl, rfl, rfl⟩
    exact ⟨hrecord, rfl, rfl⟩
  · rintro ⟨hrecord, rfl, rfl⟩
    exact ⟨_, hrecord, rfl, rfl, rfl⟩

theorem view_of_record {v : RunRecord} (h : s.store.record runId = some v) :
    s.view runId = some (s.viewOf runId v) := by
  simp [view, h]

theorem viewOf_eq {inFlight : List (ℕ × ToolExecutionContext)} {latest : Timestamp}
    (hinFlight : s.inFlight runId = inFlight) (hlatest : s.latest = latest) (v : RunRecord) :
    s.viewOf runId v = { v with inFlight := inFlight, latest := latest } := by
  simp only [viewOf, hinFlight, hlatest]

theorem view_congr (hagree : s'.store.Agree runId s.store)
    (hdefinitions : s'.store.definitions = s.store.definitions)
    (hinFlight : s'.inFlight runId = s.inFlight runId) (hlatest : s'.latest = s.latest) :
    s'.view runId = s.view runId := by
  have hviewOf : s'.viewOf runId = s.viewOf runId := by
    funext record
    simp only [viewOf, hinFlight, hlatest]
  simp only [view, hagree.record_eq hdefinitions, hviewOf]

theorem WellFormed.keyed {v : RunView} (h : s.view runId = some v) : v.Keyed :=
  MemoryStore.keyed_of_record (view_eq_some_iff.mp h).1

/-- A run that exists has a record. -/
theorem WellFormed.record_isSome (hs : s.WellFormed) {run : WorkflowRun}
    (hrun : s.store.runs.get runId = some run) : ∃ v, s.store.record runId = some v := by
  obtain ⟨definition, hdefinition⟩ := Option.isSome_iff_exists.mp (hs.known runId run hrun)
  exact ⟨s.store.recordOf runId run definition, by simp [MemoryStore.record, hrun, hdefinition]⟩

theorem Advances.refl (hs : s.WellFormed) : s.Advances cfg cause s where
  definitions := rfl
  latest := rfl
  clock := rfl
  runs _ := Or.inl ⟨MemoryStore.Agree.refl _, rfl⟩
  distinct := hs.distinct

/-- A run is seen to stay as it is or to move. -/
theorem Advances.view (h : s.Advances cfg cause s') {v : RunView}
    (hv : s.view runId = some v) :
    ∃ v', s'.view runId = some v' ∧ (v' = v ∨ RunMove cfg v cause v') := by
  rcases h.runs runId with ⟨hagree, hinFlight⟩ | ⟨w, v', hw, hv', hmove⟩
  · exact ⟨v, (view_congr hagree h.definitions hinFlight h.latest).trans hv, Or.inl rfl⟩
  · obtain rfl : w = v := Option.some.inj (hw.symm.trans hv)
    exact ⟨v', hv', Or.inr hmove⟩

theorem Advances.wellFormed (h : s.Advances cfg cause s') (hs : s.WellFormed) :
    s'.WellFormed where
  known runId run hrun := by
    rcases h.runs runId with ⟨hagree, _⟩ | ⟨_, v', _, hv', _⟩
    · rw [hagree.run] at hrun
      simpa [MemoryStore.definitionOf, h.definitions] using hs.known runId run hrun
    · have hrecord := (view_eq_some_iff.mp hv').1
      obtain rfl : v'.run = run :=
        Option.some.inj ((MemoryStore.runs_get_of_record hrecord).symm.trans hrun)
      simp [MemoryStore.definitionOf_of_record hrecord]
  vacant runId hnone := by
    rcases h.runs runId with ⟨hagree, hinFlight⟩ | ⟨_, v', _, hv', _⟩
    · obtain ⟨hvacant, hidle⟩ := hs.vacant runId (hagree.run.symm.trans hnone)
      exact ⟨hagree.trans hvacant, hinFlight.trans hidle⟩
    · simp [MemoryStore.runs_get_of_record (view_eq_some_iff.mp hv').1] at hnone
  sound runId v' hv' := by
    rcases h.runs runId with ⟨hagree, hinFlight⟩ | ⟨v, w, hv, hw, hmove⟩
    · exact hs.sound runId v' ((view_congr hagree h.definitions hinFlight h.latest).symm.trans hv')
    · obtain rfl : w = v' := Option.some.inj (hw.symm.trans hv')
      exact hmove.sound (hs.sound runId v hv) (WellFormed.keyed hv')
  distinct := h.distinct
  clock := by
    rw [h.clock, h.latest]
    exact hs.clock

end Shared

/-! ## Units of work -/

/-- A committed unit of work of one run, as the store shows it. -/
structure MemoryStore.Turned (runId : String) (M : RunRecord → RunRecord → Prop)
    (store next : MemoryStore) : Prop where
  definitions : next.definitions = store.definitions
  others : ∀ other, other ≠ runId → next.Agree other store
  own : ∃ v v', store.record runId = some v ∧ next.record runId = some v' ∧ M v v'

/-- A unit of work that asks for its run first, and whose writes turn the record.
`left` is what is known when it is left without a commit. -/
theorem MemoryStore.transact_turned {α : Type} {body : UowM (Exit α)} {store next : MemoryStore}
    {runId : String} {M : RunRecord → RunRecord → Prop} (left : Prop) {a : α}
    (hknown : ∀ run, store.runs.get runId = some run → ∃ v, store.record runId = some v)
    (hmissing : store.runs.get runId = none →
      Tx.Ensures body (fun exit _ => left ∧ ∃ a, exit = .leave a) store [])
    (hbody : ∀ v, store.record runId = some v → Tx.Ensures body (fun exit staged =>
      match exit with
      | .commit _ => validate staged store = .ok () → ∃ v', v.Turns staged v' ∧ M v v'
      | .leave _ => left) store [])
    (h : store.transact body = .ok (a, next)) :
    (left ∧ next = store) ∨ Turned runId M store next := by
  refine Tx.Ensures.transact
    (P := fun _ next => (left ∧ next = store) ∨ Turned runId M store next) ?_ h
  cases hrun : store.runs.get runId with
  | none =>
      refine (hmissing hrun).mono ?_
      rintro _ _ ⟨hleft, a, rfl⟩
      exact Or.inl ⟨hleft, rfl⟩
  | some run =>
      obtain ⟨v, hv⟩ := hknown run hrun
      refine (hbody v hv).mono ?_
      rintro (a | a) staged hstaged
      · intro hvalid
        obtain ⟨v', hturns, hmove⟩ := hstaged hvalid
        have hown : ∀ write ∈ staged, write.runId? = some runId := fun write hwrite =>
          (hturns.own write hwrite).runId?.trans (congrArg some (runId_of_record hv))
        refine Or.inr ⟨definitions_view hown, fun other hother => agree_view fun write hwrite => ?_,
          v, v', hv, hturns.record hv, hmove⟩
        rw [hown write hwrite]
        exact fun h => hother (Option.some.inj h).symm
      · exact Or.inl ⟨hstaged, rfl⟩

namespace Shared

variable {cfg : Deployment} {cause : Cause} {s s' : Shared} {runId : String}
  {M : RunRecord → RunRecord → Prop}

/-- Nothing that a view shows has changed. -/
theorem Advances.of_still (hstore : s'.store = s.store)
    (hclock : s'.clock = s.clock) (hlatest : s'.latest = s.latest)
    (hinFlight : ∀ runId, s'.inFlight runId = s.inFlight runId)
    (hdistinct : s'.coordinator.Distinct) :
    s.Advances cfg cause s' where
  definitions := by rw [hstore]
  latest := hlatest
  clock := hclock
  runs other := Or.inl ⟨hstore ▸ MemoryStore.Agree.refl _, hinFlight other⟩
  distinct := hdistinct

/-- A unit of work has been committed, and the process may have taken note of it. -/
theorem Advances.of_turned (hturned : MemoryStore.Turned runId M s.store s'.store)
    (hclock : s'.clock = s.clock) (hlatest : s'.latest = s.latest)
    (hothers : ∀ other, other ≠ runId → s'.inFlight other = s.inFlight other)
    (hdistinct : s'.coordinator.Distinct)
    (hmove : ∀ v v', s.store.record runId = some v → M v v' →
      RunMove cfg (s.viewOf runId v) cause (s'.viewOf runId v')) : s.Advances cfg cause s' where
  definitions := hturned.definitions
  latest := hlatest
  clock := hclock
  runs other := by
    by_cases hother : other = runId
    · subst hother
      obtain ⟨v, v', hv, hv', hM⟩ := hturned.own
      exact Or.inr ⟨_, _, view_of_record hv, view_of_record hv', hmove v v' hv hM⟩
    · exact Or.inl ⟨hturned.others other hother, hothers other hother⟩
  distinct := hdistinct

/-- A unit of work that leaves the process alone. -/
theorem inStore_advances {α : Type} {body : UowM (Exit α)} (runId : String)
    (hs : s.WellFormed)
    (hmissing : s.store.runs.get runId = none →
      Tx.Ensures body (fun exit _ => True ∧ ∃ a, exit = .leave a) s.store [])
    (hbody : ∀ v, s.store.record runId = some v → Tx.Ensures body (fun exit staged =>
      match exit with
      | .commit _ => validate staged s.store = .ok () → ∃ v', v.Turns staged v' ∧ M v v'
      | .leave _ => True) s.store [])
    (hmove : ∀ v v', s.store.record runId = some v → M v v' →
      RunMove cfg (s.viewOf runId v) cause (s.viewOf runId v')) :
    s.Advances cfg cause (s.inStore body).2 := by
  unfold inStore
  cases htransact : s.store.transact body with
  | error e => exact Advances.refl hs
  | ok result =>
      obtain ⟨a, next⟩ := result
      rcases MemoryStore.transact_turned True (fun run hrun => hs.record_isSome hrun) hmissing hbody
        htransact with ⟨_, rfl⟩ | hturned
      · exact Advances.refl hs
      · exact Advances.of_turned hturned rfl rfl (fun _ _ => rfl) hs.distinct hmove

/-- A unit of work that always commits what turns the record. -/
theorem transact_turned_of_commits {α : Type} {body : UowM (Exit α)} {next : MemoryStore} {a : α}
    (runId : String) (hs : s.WellFormed)
    (hmissing : s.store.runs.get runId = none → Tx.Ensures body (fun _ _ => False) s.store [])
    (hcommits : Tx.Ensures body (fun exit _ => exit.Committed) s.store [])
    (hbody : ∀ v, s.store.record runId = some v → Tx.Ensures body (fun _ staged =>
      ∃ v', v.Turns staged v' ∧ M v v') s.store [])
    (h : s.store.transact body = .ok (a, next)) : MemoryStore.Turned runId M s.store next := by
  refine (MemoryStore.transact_turned False (fun run hrun => hs.record_isSome hrun)
    (fun hnone => (hmissing hnone).mono fun _ _ => False.elim) (fun v hv => ?_) h).resolve_left
    fun hleft => hleft.1
  rintro (a | a) staged hstaged
  · exact fun _ => hbody v hv _ _ hstaged
  · exact hcommits _ _ hstaged

end Shared

end ChangePilot
