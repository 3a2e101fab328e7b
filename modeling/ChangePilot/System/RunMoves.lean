import ChangePilot.System.RunView

/-!
# What can happen to one run

`RunMove` is the runtime as seen by one run: each constructor is one thing that a
unit of work, a tool, the clock or a crash can do to the view of the run, with
what is known when it happens.  It is the abstract model that the invariants are
proved on; that every step of the system is a move of each run, or leaves the
run alone, is proved in `Refinement`.
-/

namespace ChangePilot

/-- Everything about one run: its rows, the unrecorded requests in flight for it,
by the identity of their futures, and the latest reading of the clock. -/
structure RunView extends RunRecord where
  inFlight : List (ℕ × ToolExecutionContext)
  latest : Timestamp

/-- What a step of the system is about, as far as conditions on runs name it. -/
inductive Cause where
  | start (attempt : StepAttempt)
  | outcome (outcome : ExecutionOutcome)
  | recovery (runId stepId : String) (attempt : StepAttempt) (answers : ProbeAnswers)
      (instant : Timestamp)
  | operator
  | other

/-- The events that decide whether a forward start was approved. -/
def AuditEvent.Gate (event : AuditEvent) : Prop :=
  (event.eventType = .toolAttemptStarted ∧ event.phase = some .forward) ∨
    event.eventType ∈ [.approvalApproved, .approvalRejected, .approvalInvalidated]

@[simp] theorem WorkflowRun.not_gate_movedEvent (run : WorkflowRun) (target : RunState)
    (occurredAt : Timestamp) : ¬ (run.movedEvent target occurredAt).Gate := by
  simp [AuditEvent.Gate, movedEvent, AuditEvent.runStateChanged]

@[simp] theorem StepRun.not_gate_movedEvent (step : StepRun) (target : StepState)
    (occurredAt : Timestamp) : ¬ (step.movedEvent target occurredAt).Gate := by
  simp [AuditEvent.Gate, movedEvent, AuditEvent.stepStateChanged]

@[simp] theorem not_gate_completedEvent (attempt : StepAttempt) (stepRun : StepRun)
    (outcome : ExecutionOutcome) (completedAt : Timestamp) (redactedResult : Value) :
    ¬ (completedEvent attempt stepRun outcome completedAt redactedResult).Gate := by
  simp [AuditEvent.Gate, completedEvent, AuditEvent.toolAttemptCompleted]

/-- The type of a recovery's own event is none of those. -/
theorem not_gate_recoveryEvent {eventType : EventType}
    (htype : eventType ∈ [.recoveryApplied, .recoveryNotApplied, .recoveryManualIntervention])
    (stepRun : StepRun) (attempt : StepAttempt) (occurredAt : Timestamp) (decision : String) :
    ¬ (recoveryEvent eventType stepRun attempt occurredAt decision).Gate := by
  simp only [List.mem_cons, List.not_mem_nil, or_false] at htype
  rcases htype with rfl | rfl | rfl <;> simp [AuditEvent.Gate, recoveryEvent]

namespace RunRecord

variable (v : RunRecord)

/-- The attempt that an outcome with the number is written into. -/
def findAttempt (stepId : String) (attemptNo : ℕ) : Option StepAttempt :=
  (v.stepAttempts stepId).find? fun attempt => attempt.attemptNo = attemptNo

def AllOthersSucceeded (stepId : String) : Prop :=
  ∀ step ∈ v.definition.steps, step.id ≠ stepId → v.stateOf step.id = some .succeeded

/-- Nothing runs and no result is unknown. -/
structure Quiet : Prop where
  steps : ∀ step ∈ v.definition.steps,
    v.stateOf step.id ≠ some .running ∧ v.stateOf step.id ≠ some .resultUnknown
  attempts : ∀ attempt ∈ v.attempts.rows, attempt.status ≠ .running ∧ ¬ attempt.AwaitsRecovery

/-- A new attempt of a step, numbered after those there are. -/
structure IsNext (id : String) (kind : ToolExecutionPhase) (attempt : StepAttempt) :
    Prop where
  runId : attempt.runId = v.run.runId
  stepId : attempt.stepId = id
  phase : attempt.phase = kind
  attemptNo : attempt.attemptNo = nextAttemptNo (v.stepAttempts id) kind
  status : attempt.status = .running
  effectApplied : attempt.effectApplied = false
  nextAttemptAt : attempt.nextAttemptAt = none
  errorClass : attempt.errorClass = none

/-- The step needs no approval, or its execution is approved. -/
def Admitted (cfg : Deployment) (step : StepDefinition) : Prop :=
  requiresApproval cfg step = .ok false ∨
    ∃ snapshot, approvalSnapshot cfg v.definition step = .ok snapshot ∧
      ∃ request ∈ v.approvals.rows, request.Approves (bindingOf v.definition step snapshot)

/-- The record with a row for the step and the attempt in place. -/
def recorded (stepId : String) (row : StepRun) (attempt : StepAttempt) : RunRecord :=
  { v with
    steps := Function.update v.steps stepId (some row)
    attempts := v.attempts.put attempt }

/-- The step's record after its attempt has ended in `nextState`. -/
def finishedStep (row : StepRun) (nextState : StepState) (idempotencyKey : String) : StepRun :=
  if nextState = .succeeded then
    { row.moved nextState with
      completionSequence := some (nextCompletionSequence v.stepRuns)
      logicalIdempotencyKey := some idempotencyKey }
  else row.moved nextState

/-- What a forward outcome makes of the run, when step and attempt are updated. -/
inductive Settles (nextState : StepState) (outcome : ExecutionOutcome) : WorkflowRun → Prop
  | unaffected
      (hsucceeded : v.run.state = .running → nextState = .succeeded →
        ¬ v.AllOthersSucceeded outcome.stepId)
      (hfailed : v.run.state = .running → nextState ≠ .failed) : Settles nextState outcome v.run
  | completed (hrunning : v.run.state = .running) (hsucceeded : nextState = .succeeded)
      (hothers : v.AllOthersSucceeded outcome.stepId) :
      Settles nextState outcome (v.run.moved .succeeded)
  | failed (hrunning : v.run.state = .running) (hfailed : nextState = .failed)
      (hnone : compensationOrder v.definition v.stepRuns v.attempts.rows = .ok []) :
      Settles nextState outcome
        { v.run.moved .failed with originalError := some outcome.errorInfo }
  | compensating {first : StepDefinition} {rest : List StepDefinition}
      (hrunning : v.run.state = .running) (hfailed : nextState = .failed)
      (hsome : compensationOrder v.definition v.stepRuns v.attempts.rows = .ok (first :: rest)) :
      Settles nextState outcome
        { v.run.moved .compensating with originalError := some outcome.errorInfo }

/-- What the outcome of a compensation makes of the run, when the attempt is
updated. -/
inductive CompensationSettles (outcome : ExecutionOutcome) : WorkflowRun → Prop
  | remaining {first : StepDefinition} {rest : List StepDefinition}
      (hsuccess : outcome.status = .success)
      (hpending : pendingCompensations v.definition v.stepRuns v.attempts.rows =
        .ok (first :: rest)) : CompensationSettles outcome v.run
  | completed (hsuccess : outcome.status = .success)
      (hpending : pendingCompensations v.definition v.stepRuns v.attempts.rows = .ok [])
      (htransition : RunState.compensated ∈ runTransitions v.run.state) :
      CompensationSettles outcome (v.run.moved .compensated)
  | failed (hfailed : outcome.status ≠ .success)
      (htransition : RunState.manualIntervention ∈ runTransitions v.run.state) :
      CompensationSettles outcome
        { v.run.moved .manualIntervention with compensationError := some outcome.errorInfo }

/-- What an effect found by recovery makes of the run, when step and attempt are
updated. -/
inductive AppliedSettles (stepId : String) (phase : ToolExecutionPhase) : WorkflowRun → Prop
  | unaffected
      (hforward : ¬ (v.run.state = .compensating ∧ phase = .forward))
      (hpending : v.run.state = .compensating → phase = .compensation →
        ∃ first rest, pendingCompensations v.definition v.stepRuns v.attempts.rows =
          .ok (first :: rest))
      (hothers : v.run.state = .running → ¬ v.AllOthersSucceeded stepId) :
      AppliedSettles stepId phase v.run
  | compensated (hstate : v.run.state = .compensating) (hphase : phase = .compensation)
      (hpending : pendingCompensations v.definition v.stepRuns v.attempts.rows = .ok []) :
      AppliedSettles stepId phase (v.run.moved .compensated)
  | compensatedAtOnce (hstate : v.run.state = .compensating) (hphase : phase = .forward) :
      AppliedSettles stepId phase (v.run.moved .compensated)
  | completed (hstate : v.run.state = .running) (hothers : v.AllOthersSucceeded stepId) :
      AppliedSettles stepId phase (v.run.moved .succeeded)

/-- The requests after a barrier: some are invalidated, with an event for each, and
one may be new. -/
structure BarrierApprovals (approvals : KeyedTable ApprovalRequest.key)
    (events : List AuditEvent) : Prop where
  kept : ∀ request ∈ v.approvals.rows, ∃ later ∈ approvals.rows,
    later.id = request.id ∧ later.binding = request.binding
  origin : ∀ request ∈ approvals.rows, request ∈ v.approvals.rows ∨
    request.status = .invalidated ∨
      (request.status = .pending ∧ ∀ earlier ∈ v.approvals.rows, earlier.id ≠ request.id)
  events : ∀ event ∈ events, event.Gate → event.eventType = .approvalInvalidated ∧
    ∃ earlier ∈ v.approvals.rows, event.requestId? = some earlier.id ∧
      ∀ request ∈ approvals.rows, request.id = earlier.id → request.status = .invalidated

end RunRecord

/-! ## The attempt that an outcome finds -/

theorem RunRecord.findAttempt_eq_some {v : RunRecord} {id : String} {attemptNo : ℕ}
    {a : StepAttempt} (h : v.findAttempt id attemptNo = some a) :
    a ∈ v.attempts.rows ∧ a.stepId = id ∧ a.attemptNo = attemptNo := by
  have hmem := mem_stepAttempts.mp (List.mem_of_find?_eq_some h)
  exact ⟨hmem.1, hmem.2, by simpa using List.find?_some h⟩

/-- Of a compensation and a forward attempt with one number, the compensation is
found: `"compensation"` is the least of the phases. -/
theorem RunRecord.findAttempt_compensation {v : RunRecord} (hkeyed : v.Keyed) {id : String}
    {attemptNo : ℕ} {a b : StepAttempt} (h : v.findAttempt id attemptNo = some a)
    (hb : b ∈ v.attempts.rows) (hstepId : b.stepId = id) (hattemptNo : b.attemptNo = attemptNo)
    (hphase : b.phase = .compensation) : a = b := by
  obtain ⟨ha, haStep, haNo⟩ := findAttempt_eq_some h
  refine hkeyed.attempt_eq ha hb (haStep.trans hstepId.symm) (haNo.trans hattemptNo.symm) ?_
  obtain ⟨before, after, hsplit, hbefore⟩ := (List.find?_eq_some_iff_append.mp h).2
  have hmem : b ∈ before ++ a :: after := hsplit ▸ mem_stepAttempts.mpr ⟨hb, hstepId⟩
  have hsorted : (before ++ a :: after).Pairwise fun x y => x.key < y.key :=
    hsplit ▸ v.attempts.sorted.sublist List.filter_sublist
  rcases List.mem_append.mp hmem with hmem | hmem
  · exact absurd hattemptNo (by simpa using hbefore b hmem)
  rcases List.mem_cons.mp hmem with rfl | hmem
  · rfl
  have hlt : a.key < b.key :=
    (List.pairwise_cons.mp (List.pairwise_append.mp hsorted).2.1).1 b hmem
  have hvalue : a.phase.value < b.phase.value := by
    simpa [StepAttempt.key, attemptKey, Prod.Lex.toLex_lt_toLex, hkeyed.attempt a ha,
      hkeyed.attempt b hb, haStep, hstepId, haNo, hattemptNo] using hlt
  rw [hphase] at hvalue
  cases hcase : a.phase <;> rw [hcase] at hvalue <;> exact absurd hvalue (by decide)

namespace RunView

variable (v : RunView)

/-- The outcome is that of a request in flight, which leaves `inFlight`, or of an
attempt whose submission has failed. -/
inductive Outstanding (outcome : ExecutionOutcome) (phase : ToolExecutionPhase) :
    List (ℕ × ToolExecutionContext) → Prop
  | inFlight {id : ℕ} {context : ToolExecutionContext} (hmem : (id, context) ∈ v.inFlight)
      (hstepId : context.stepId = outcome.stepId)
      (hattemptNo : context.attemptNumber = outcome.attemptNo) (hphase : context.phase = phase) :
      Outstanding outcome phase (v.inFlight.filter fun future => future.1 ≠ id)
  | notSubmitted {attempt : StepAttempt} (hmem : attempt ∈ v.attempts.rows)
      (hrunning : attempt.status = .running) (hstepId : attempt.stepId = outcome.stepId)
      (hattemptNo : attempt.attemptNo = outcome.attemptNo) (hphase : attempt.phase = phase)
      (hnone : ∀ future ∈ v.inFlight, ¬ (future.2.stepId = attempt.stepId ∧
        future.2.attemptNumber = attempt.attemptNo ∧ future.2.phase = attempt.phase)) :
      Outstanding outcome phase v.inFlight

/-- The futures after a start: the request is in flight, or not submitted. -/
inductive Submission (attempt : StepAttempt) : List (ℕ × ToolExecutionContext) → Prop
  | submitted {id : ℕ} {context : ToolExecutionContext} (hfresh : ∀ f ∈ v.inFlight, f.1 ≠ id)
      (hrunId : context.runId = attempt.runId) (hstepId : context.stepId = attempt.stepId)
      (hattemptNo : context.attemptNumber = attempt.attemptNo)
      (hphase : context.phase = attempt.phase) :
      Submission attempt (v.inFlight ++ [(id, context)])
  | notSubmitted : Submission attempt v.inFlight

end RunView

open RunView

/-- One thing that can happen to a run. -/
inductive RunMove (cfg : Deployment) (v : RunView) : Cause → RunView → Prop
  | tick {t : Timestamp} (hlatest : v.latest ≤ t) : RunMove cfg v .other { v with latest := t }
  | forget : RunMove cfg v .other { v with inFlight := [] }
  | retriesDue {steps : String → Option StepRun} {events : List AuditEvent}
      (hevents : ∀ event ∈ events, ¬ event.Gate)
      (hsteps : ∀ id, steps id = v.steps id ∨ ∃ row last next,
        v.steps id = some row ∧ row.state = .retryWait ∧
          (v.stepAttempts id).getLast? = some last ∧ last.nextAttemptAt = some next ∧
            next ≤ v.latest ∧ steps id = some (row.moved .ready)) :
      RunMove cfg v .other { v with steps := steps, events := v.events ++ events }
  | dependenciesReady {steps : String → Option StepRun} {events : List AuditEvent}
      (hevents : ∀ event ∈ events, ¬ event.Gate)
      (hsteps : ∀ id, steps id = v.steps id ∨ ∃ step ∈ v.definition.steps, ∃ row,
        step.id = id ∧ v.steps id = some row ∧ row.state = .pending ∧
          (∀ d ∈ step.dependsOn, v.stateOf d = some .succeeded) ∧
            steps id = some (row.moved .ready)) :
      RunMove cfg v .other { v with steps := steps, events := v.events ++ events }
  | barrier {run : WorkflowRun} {approvals : KeyedTable ApprovalRequest.key}
      {events : List AuditEvent} {step : StepDefinition} (hstep : step ∈ v.definition.steps)
      (hready : v.stateOf step.id = some .ready) (hquiet : v.Quiet) (hdrained : v.inFlight = [])
      (hrun : (v.run.state = .waitingApproval ∧ run = v.run) ∨
        (RunState.waitingApproval ∈ runTransitions v.run.state ∧
          run = v.run.moved .waitingApproval))
      (happrovals : v.BarrierApprovals approvals events) :
      RunMove cfg v .other
        { v with run := run, approvals := approvals, events := v.events ++ events }
  | forwardStarted {run : WorkflowRun} {step : StepDefinition} {row : StepRun}
      {attempt : StepAttempt} {futures : List (ℕ × ToolExecutionContext)}
      {events : List AuditEvent} (hstep : step ∈ v.definition.steps)
      (hrun : (v.run.state = .pending ∧ run = v.run.moved .running) ∨
        (v.run.state = .running ∧ run = v.run))
      (hrow : v.steps step.id = some row) (hready : row.state = .ready)
      (hnext : v.IsNext step.id .forward attempt) (hadmitted : v.Admitted cfg step)
      (hfutures : v.Submission attempt futures) (hevents : ∀ event ∈ events, ¬ event.Gate) :
      RunMove cfg v (.start attempt)
        { v with
          run := run
          steps := Function.update v.steps step.id (some (row.moved .running))
          attempts := v.attempts.put attempt
          events := v.events ++ events ++ [.toolAttemptStarted attempt.runId attempt.stepId
            attempt.attemptId attempt.attemptNo .forward attempt.startedAt .running
            (row.revision + 1)]
          inFlight := futures }
  | compensationStarted {step : StepDefinition} {rest : List StepDefinition}
      {attempt : StepAttempt} {futures : List (ℕ × ToolExecutionContext)}
      {events : List AuditEvent} (hstate : v.run.state = .compensating)
      (hquiet : v.Quiet) (hdrained : v.inFlight = [])
      (hpending : pendingCompensations v.definition v.stepRuns v.attempts.rows =
        .ok (step :: rest))
      (hnext : v.IsNext step.id .compensation attempt)
      (hfutures : v.Submission attempt futures) (hevents : ∀ event ∈ events, ¬ event.Gate) :
      RunMove cfg v (.start attempt)
        { v with
          attempts := v.attempts.put attempt
          events := v.events ++ events
          inFlight := futures }
  | forwardFinished {run : WorkflowRun} {step : StepDefinition} {row : StepRun}
      {attempt : StepAttempt} {outcome : ExecutionOutcome} {phase : ToolExecutionPhase}
      {completedAt : Timestamp} {nextState : StepState} {nextAttemptAt : Option Timestamp}
      {result : Value} {futures : List (ℕ × ToolExecutionContext)} {events : List AuditEvent}
      (hrunId : outcome.runId = v.run.runId) (hsource : v.Outstanding outcome phase futures)
      (hstep : step ∈ v.definition.steps) (hstepId : step.id = outcome.stepId)
      (hrow : v.steps outcome.stepId = some row)
      (hattempt : v.findAttempt outcome.stepId outcome.attemptNo = some attempt)
      (hphase : attempt.phase ≠ .compensation)
      (hresult : forwardResult step.retry outcome completedAt = .ok (nextState, nextAttemptAt))
      (htransition : nextState ∈ stepTransitions row.state)
      (hsettles : (v.recorded outcome.stepId (v.finishedStep row nextState attempt.idempotencyKey)
        (attempt.completedWith outcome completedAt nextAttemptAt result)).Settles
          nextState outcome run)
      (hevents : ∀ event ∈ events, ¬ event.Gate) :
      RunMove cfg v (.outcome outcome)
        { v with
          run := run
          steps := Function.update v.steps outcome.stepId
            (some (v.finishedStep row nextState attempt.idempotencyKey))
          attempts := v.attempts.put
            (attempt.completedWith outcome completedAt nextAttemptAt result)
          events := v.events ++ events
          inFlight := futures }
  | compensationFinished {run : WorkflowRun} {attempt : StepAttempt}
      {outcome : ExecutionOutcome} {phase : ToolExecutionPhase} {completedAt : Timestamp}
      {result : Value} {futures : List (ℕ × ToolExecutionContext)} {events : List AuditEvent}
      (hrunId : outcome.runId = v.run.runId) (hsource : v.Outstanding outcome phase futures)
      (hattempt : v.findAttempt outcome.stepId outcome.attemptNo = some attempt)
      (hphase : attempt.phase = .compensation)
      (hsettles : (v.putAttempt
        (attempt.completedWith outcome completedAt none result)).CompensationSettles outcome run)
      (hevents : ∀ event ∈ events, ¬ event.Gate) :
      RunMove cfg v (.outcome outcome)
        { v with
          run := run
          attempts := v.attempts.put (attempt.completedWith outcome completedAt none result)
          events := v.events ++ events
          inFlight := futures }
  | compensated {events : List AuditEvent} (hstate : v.run.state = .compensating)
      (hquiet : v.Quiet) (hdrained : v.inFlight = [])
      (hpending : pendingCompensations v.definition v.stepRuns v.attempts.rows = .ok [])
      (hevents : ∀ event ∈ events, ¬ event.Gate) :
      RunMove cfg v .other
        { v with run := v.run.moved .compensated, events := v.events ++ events }
  | decided {target : RunState} {request : ApprovalRequest} {decision : ApprovalDecision}
      {actor : ApprovalActorDigest} {reason : ApprovalReasonDigest} {decidedAt : Timestamp}
      {decisionEvent : AuditEvent} {events : List AuditEvent}
      (hrequest : request ∈ v.approvals.rows) (hpending : request.status = .pending)
      (hstate : v.run.state = .waitingApproval)
      (htarget : target ∈ runTransitions .waitingApproval)
      (hdecision : target = .running ↔ decision = .approved)
      (htype : decisionEvent.eventType = approvalEventType decision)
      (hrequestId : decisionEvent.requestId? = some request.id)
      (hevents : ∀ event ∈ events, ¬ event.Gate) :
      RunMove cfg v .operator
        { v with
          run := v.run.moved target
          approvals := v.approvals.put (request.decided decision actor reason decidedAt)
          events := v.events ++ decisionEvent :: events }
  | cancelled {events : List AuditEvent}
      (htransition : RunState.cancelled ∈ runTransitions v.run.state)
      (hevents : ∀ event ∈ events, ¬ event.Gate) :
      RunMove cfg v .operator
        { v with run := v.run.moved .cancelled, events := v.events ++ events }
  | recoveredApplied {run : WorkflowRun} {step : StepDefinition} {row changed : StepRun}
      {attempt expected : StepAttempt} {answers : ProbeAnswers} {output result : Value}
      {occurredAt : Timestamp} {events : List AuditEvent}
      (hstep : step ∈ v.definition.steps) (hrow : v.steps step.id = some row)
      (hunresolved : unresolvedAmong row (v.stepAttempts step.id) = some attempt)
      (hexpected : expected.attemptNo = attempt.attemptNo ∧ expected.phase = attempt.phase)
      (hprobe : probe cfg answers step attempt occurredAt = .ok (some (.found output)))
      (hstate : v.run.state ≠ .failed)
      (hchanged : (attempt.phase = .forward ∧ StepState.succeeded ∈ stepTransitions row.state ∧
          changed = row.moved .succeeded) ∨
        (attempt.phase ≠ .forward ∧ changed = row))
      (hsettles : (v.recorded step.id changed (attempt.applied occurredAt result)).AppliedSettles
        step.id attempt.phase run)
      (hevents : ∀ event ∈ events, ¬ event.Gate) :
      RunMove cfg v (.recovery v.run.runId step.id expected answers occurredAt)
        { v with
          run := run
          steps := Function.update v.steps step.id (some changed)
          attempts := v.attempts.put (attempt.applied occurredAt result)
          events := v.events ++ events }
  | recoveredNotApplied {step : StepDefinition} {row changed : StepRun}
      {attempt expected : StepAttempt} {answers : ProbeAnswers} {occurredAt : Timestamp}
      {events : List AuditEvent}
      (hstep : step ∈ v.definition.steps) (hrow : v.steps step.id = some row)
      (hunresolved : unresolvedAmong row (v.stepAttempts step.id) = some attempt)
      (hexpected : expected.attemptNo = attempt.attemptNo ∧ expected.phase = attempt.phase)
      (hprobe : probe cfg answers step attempt occurredAt = .ok (some .notFound))
      (hchanged : (attempt.phase = .forward ∧ StepState.ready ∈ stepTransitions row.state ∧
          changed = row.moved .ready) ∨
        (attempt.phase ≠ .forward ∧ changed = row))
      (hevents : ∀ event ∈ events, ¬ event.Gate) :
      RunMove cfg v (.recovery v.run.runId step.id expected answers occurredAt)
        { v with
          steps := Function.update v.steps step.id (some changed)
          attempts := v.attempts.put (attempt.closed .notApplied occurredAt)
          events := v.events ++ events }
  | recoveredManual {run : WorkflowRun} {step : StepDefinition} {row changed : StepRun}
      {attempt expected : StepAttempt} {answers : ProbeAnswers} {occurredAt : Timestamp}
      {events : List AuditEvent}
      (hstep : step ∈ v.definition.steps) (hrow : v.steps step.id = some row)
      (hunresolved : unresolvedAmong row (v.stepAttempts step.id) = some attempt)
      (hexpected : expected.attemptNo = attempt.attemptNo ∧ expected.phase = attempt.phase)
      (htransition : RunState.manualIntervention ∈ runTransitions v.run.state)
      (hrun : run = v.run.moved .manualIntervention ∨
        run = { v.run.moved .manualIntervention with
          compensationError := some unprovenCompensation })
      (hchanged : (attempt.phase = .forward ∧
          StepState.manualIntervention ∈ stepTransitions row.state ∧
          changed = row.moved .manualIntervention) ∨
        (attempt.phase ≠ .forward ∧ changed = row))
      (hevents : ∀ event ∈ events, ¬ event.Gate)
      (hunproven : attempt.phase = .compensation →
        run.compensationError = some unprovenCompensation) :
      RunMove cfg v (.recovery v.run.runId step.id expected answers occurredAt)
        { v with
          run := run
          steps := Function.update v.steps step.id (some changed)
          attempts := v.attempts.put (attempt.closed .manualIntervention occurredAt)
          events := v.events ++ events }

end ChangePilot
