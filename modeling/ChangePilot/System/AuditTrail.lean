import ChangePilot.Library.Replay
import ChangePilot.System.Promotion

/-!
# The audit log tells the states

The events of a run and of its steps name the states and revisions they lead from and to.
Every unit of work appends the events of the moves it makes, so that the log of a run
leads from the states of a new run to those that are stored.
-/

namespace ChangePilot

/-! ## Trails -/

/-- The states and revisions of a run and of its steps, and the statuses of its approval
requests. -/
@[ext] structure Trail where
  run : RunState × ℕ
  steps : String → StepState × ℕ
  requests : String → Option ApprovalStatus

namespace Trail

/-- A new run. -/
def start : Trail where
  run := (.pending, 0)
  steps _ := (.pending, 0)
  requests _ := none

/-- The run, or the step with the id, is in the state, at the revision. -/
def At (trail : Trail) (stepId : Option String) : AggregateState → ℕ → Prop
  | .run state, revision => trail.run = (state, revision)
  | .step state, revision => stepId.map trail.steps = some (state, revision)

instance (trail : Trail) (stepId : Option String) :
    ∀ (state : AggregateState) (revision : ℕ), Decidable (trail.At stepId state revision)
  | .run _, _ => inferInstanceAs (Decidable (_ = _))
  | .step _, _ => inferInstanceAs (Decidable (_ = _))

/-- What an event makes of the status of its request: a new request is pending, a pending
one is decided, and one that is pending or approved may be invalidated. -/
def requestMove : EventType → Option ApprovalStatus → Option ApprovalStatus
  | .approvalCreated, none => some .pending
  | .approvalApproved, some .pending => some .approved
  | .approvalRejected, some .pending => some .rejected
  | .approvalInvalidated, some .pending | .approvalInvalidated, some .approved =>
      some .invalidated
  | _, _ => none

/-- One request changes its status. -/
def nextRequest (trail : Trail) (event : AuditEvent) : Option Trail :=
  event.requestId?.bind fun id =>
    (requestMove event.eventType (trail.requests id)).map fun status =>
      { trail with requests := Function.update trail.requests id (some status) }

theorem nextRequest_eq_some {trail : Trail} {event : AuditEvent} {id : String}
    {status : ApprovalStatus} (hid : event.requestId? = some id)
    (hmove : requestMove event.eventType (trail.requests id) = some status) :
    trail.nextRequest event =
      some { trail with requests := Function.update trail.requests id (some status) } := by
  rw [nextRequest, hid, Option.bind_some, hmove]
  rfl

/-- The run makes one legal move, from where it is to the next revision. -/
def nextRun (trail : Trail) (event : AuditEvent) : Option Trail :=
  match event.previousState, event.newState with
  | .run previous, .run new =>
      if trail.run = (previous, event.previousRevision) ∧ new ∈ runTransitions previous ∧
          event.revision = event.previousRevision + 1 then
        some { trail with run := (new, event.revision) }
      else none
  | _, _ => none

/-- A step makes one legal move, from where it is to the next revision. -/
def nextStep (trail : Trail) (event : AuditEvent) : Option Trail :=
  match event.stepId, event.previousState, event.newState with
  | some stepId, .step previous, .step new =>
      if trail.steps stepId = (previous, event.previousRevision) ∧
          new ∈ stepTransitions previous ∧ event.revision = event.previousRevision + 1 then
        some { trail with steps := Function.update trail.steps stepId (new, event.revision) }
      else none
  | _, _, _ => none

/-- The events of a barrier name the state that the run waits in, a decision the state that
it is decided in; an event of an attempt or of a recovery leaves its step as it is. -/
def next (trail : Trail) (event : AuditEvent) : Option Trail :=
  match event.eventType with
  | .runStateChanged => trail.nextRun event
  | .stepStateChanged => trail.nextStep event
  | .approvalCreated | .approvalInvalidated =>
      if trail.At event.stepId event.newState event.revision then trail.nextRequest event else none
  | .approvalApproved | .approvalRejected =>
      if trail.At event.stepId event.previousState event.previousRevision then
        trail.nextRequest event
      else none
  | .workflowCreated | .toolAttemptStarted | .toolAttemptCompleted | .recoveryApplied |
      .recoveryNotApplied | .recoveryManualIntervention =>
      if trail.At event.stepId event.previousState event.previousRevision ∧
          trail.At event.stepId event.newState event.revision then
        some trail
      else none

theorem next_runMoved {run : WorkflowRun} {target : RunState} (occurredAt : Timestamp)
    (htransition : target ∈ runTransitions run.state) {trail : Trail}
    (hrun : trail.run = (run.state, run.revision)) :
    trail.next (run.movedEvent target occurredAt) =
      some { trail with run := (target, run.revision + 1) } :=
  if_pos ⟨hrun, htransition, rfl⟩

theorem next_stepMoved {row : StepRun} {target : StepState} (occurredAt : Timestamp)
    (htransition : target ∈ stepTransitions row.state) {trail : Trail}
    (hrow : trail.steps row.stepId = (row.state, row.revision)) :
    trail.next (row.movedEvent target occurredAt) = some { trail with
      steps := Function.update trail.steps row.stepId (target, row.revision + 1) } :=
  if_pos ⟨hrow, htransition, rfl⟩

/-- The event names the states as they are. -/
def Fits (trail : Trail) (event : AuditEvent) : Prop := trail.next event = some trail

variable {trail : Trail} {stepId : String} {state : StepState} {revision : ℕ}

theorem fits_createdEvent (runId : String) (definition : WorkflowDefinition)
    (occurredAt : Timestamp) :
    start.Fits (WorkflowService.createdEvent runId definition occurredAt) := by
  show (if start.At none (.run .pending) 0 ∧ start.At none (.run .pending) 0 then some start
    else none) = some start
  exact if_pos ⟨rfl, rfl⟩

theorem fits_toolAttemptStarted (runId attemptId : String) (attemptNo : ℕ)
    (phase : ToolExecutionPhase) (occurredAt : Timestamp)
    (hstep : trail.steps stepId = (state, revision)) :
    trail.Fits (.toolAttemptStarted runId stepId attemptId attemptNo phase occurredAt state
      revision) :=
  if_pos ⟨congrArg some hstep, congrArg some hstep⟩

theorem fits_completedEvent {attempt : StepAttempt} {row : StepRun} (outcome : ExecutionOutcome)
    (completedAt : Timestamp) (result : Value)
    (hstep : trail.steps attempt.stepId = (row.state, row.revision)) :
    trail.Fits (completedEvent attempt row outcome completedAt result) :=
  if_pos ⟨congrArg some hstep, congrArg some hstep⟩

theorem fits_recoveryEvent {attempt : StepAttempt} {row : StepRun} {eventType : EventType}
    (htype : eventType ∈ [.recoveryApplied, .recoveryNotApplied, .recoveryManualIntervention])
    (occurredAt : Timestamp) (decision : String)
    (hstep : trail.steps attempt.stepId = (row.state, row.revision)) :
    trail.Fits (recoveryEvent eventType row attempt occurredAt decision) := by
  simp only [List.mem_cons, List.not_mem_nil, or_false] at htype
  rcases htype with rfl | rfl | rfl <;> exact if_pos ⟨congrArg some hstep, congrArg some hstep⟩

end Trail

/-- The states that the record of a run holds; a step without a row is as it was. -/
def RunRecord.trail (v : RunRecord) : Trail where
  run := (v.run.state, v.run.revision)
  steps id := match v.steps id with
    | some row => (row.state, row.revision)
    | none => (.pending, 0)
  requests id := (v.approvals.get (approvalKey v.run.runId id)).map ApprovalRequest.status

theorem RunRecord.trail_steps {v : RunRecord} {id : String} {row : StepRun}
    (hrow : v.steps id = some row) : v.trail.steps id = (row.state, row.revision) := by
  simp only [trail, hrow]

theorem RunRecord.trail_steps_of_none {v : RunRecord} {id : String} (hnone : v.steps id = none) :
    v.trail.steps id = (.pending, 0) := by
  simp only [trail, hnone]

theorem MemoryStore.approvals_get_of_record {store : MemoryStore} {runId : String} {v : RunRecord}
    (h : store.record runId = some v) (id : String) :
    store.approvals.get (approvalKey runId id) = v.approvals.get (approvalKey runId id) := by
  rw [← (record_eq_some_iff.mp h).2.2.2.2.1]
  refine Option.ext fun request => ?_
  rw [KeyedTable.get_eq_some_iff, KeyedTable.get_eq_some_iff, KeyedTable.mem_restrict]
  constructor
  · rintro ⟨hmem, hkey⟩
    exact ⟨⟨hmem, decide_eq_true (congrArg (fun key => (ofLex key).1) hkey)⟩, hkey⟩
  · rintro ⟨⟨hmem, _⟩, hkey⟩
    exact ⟨hmem, hkey⟩

/-! ## Records that follow one another -/

/-- What is appended to the log of `v` leads from its states to those of `w`. -/
def RunRecord.Leads (v w : RunRecord) : Prop :=
  ∃ more, w.events = v.events ++ more ∧ Replays Trail.next v.trail more w.trail

/-- The log of a run leads from the states of a new run to those it is in. -/
def RunRecord.Replayed (v : RunRecord) : Prop := Replays Trail.next .start v.events v.trail

namespace RunRecord

variable {u v w : RunRecord}

theorem Leads.refl (v : RunRecord) : v.Leads v := ⟨[], by simp, by simp⟩

theorem Leads.trans (h : u.Leads v) (h' : v.Leads w) : u.Leads w := by
  obtain ⟨more, hmore, hreplays⟩ := h
  obtain ⟨later, hlater, hreplays'⟩ := h'
  exact ⟨more ++ later, by rw [hlater, hmore, List.append_assoc], hreplays.append hreplays'⟩

theorem Leads.replayed (h : v.Leads w) (hv : v.Replayed) : w.Replayed := by
  obtain ⟨more, hmore, hreplays⟩ := h
  rw [Replayed, hmore]
  exact hv.append hreplays

/-- No state changes, and the events that are appended name the states as they are. -/
theorem Leads.of_fits (htrail : w.trail = v.trail) {more : List AuditEvent}
    (hevents : w.events = v.events ++ more) (hfits : ∀ event ∈ more, v.trail.Fits event) :
    v.Leads w := by
  refine ⟨more, hevents, ?_⟩
  rw [htrail]
  clear hevents
  induction more with
  | nil => exact Replays.nil_iff.mpr rfl
  | cons event rest ih =>
      obtain ⟨hevent, hrest⟩ := List.forall_mem_cons.mp hfits
      exact Replays.cons_iff.mpr ⟨_, hevent, ih hrest⟩

/-- The run makes one move, and its event is appended. -/
theorem Leads.runMoved {target : RunState} (occurredAt : Timestamp)
    (htransition : target ∈ runTransitions v.run.state)
    (hrun : (w.run.state, w.run.revision) = (target, v.run.revision + 1))
    (hidentity : w.run.runId = v.run.runId) (hsteps : w.steps = v.steps)
    (happrovals : w.approvals = v.approvals)
    (hevents : w.events = v.events ++ [v.run.movedEvent target occurredAt]) : v.Leads w := by
  refine ⟨_, hevents, Replays.cons_iff.mpr ⟨_, Trail.next_runMoved occurredAt htransition rfl, ?_⟩⟩
  rw [Replays.nil_iff]
  refine Trail.ext hrun.symm (by rw [trail, trail, hsteps]) ?_
  rw [trail, trail, hidentity, happrovals]

/-- A step makes one move, and its event is appended. -/
theorem Leads.stepMoved {row changed : StepRun} {target : StepState} {occurredAt : Timestamp}
    (hrow : v.steps row.stepId = some row) (htransition : target ∈ stepTransitions row.state)
    (hchanged : (changed.state, changed.revision) = (target, row.revision + 1))
    (hrun : w.run = v.run) (happrovals : w.approvals = v.approvals)
    (hsteps : w.steps = Function.update v.steps row.stepId (some changed))
    (hevents : w.events = v.events ++ [row.movedEvent target occurredAt]) : v.Leads w := by
  refine ⟨_, hevents, Replays.cons_iff.mpr
    ⟨_, Trail.next_stepMoved occurredAt htransition (trail_steps hrow), ?_⟩⟩
  rw [Replays.nil_iff]
  refine Trail.ext (by rw [trail, trail, hrun]) (funext fun id => ?_)
    (by rw [trail, trail, hrun, happrovals])
  show Function.update v.trail.steps row.stepId (target, row.revision + 1) id =
    match w.steps id with
    | some row => (row.state, row.revision)
    | none => (.pending, 0)
  rw [hsteps]
  by_cases hid : id = row.stepId
  · rw [hid, Function.update_self, Function.update_self]
    exact hchanged.symm
  · rw [Function.update_of_ne hid, Function.update_of_ne hid]
    rfl

/-- A step's move, as it is written. -/
theorem Leads.step {row : StepRun} {target : StepState} (hrow : v.steps row.stepId = some row)
    (htransition : target ∈ stepTransitions row.state) (occurredAt : Timestamp) :
    v.Leads ((v.setStep (row.moved target)).log (row.movedEvent target occurredAt)) :=
  .stepMoved hrow htransition rfl rfl rfl rfl rfl

theorem trail_requests {request : ApprovalRequest} (hrunId : request.runId = v.run.runId) :
    v.trail.requests request.id =
      (v.approvals.get request.key).map ApprovalRequest.status := by
  rw [ApprovalRequest.key, hrunId]
  rfl

/-- A request gets a status that its event leads to. -/
theorem Leads.request {changed : ApprovalRequest} (hrunId : changed.runId = v.run.runId)
    {event : AuditEvent} (hevent : v.trail.next event = some { v.trail with
      requests := Function.update v.trail.requests changed.id (some changed.status) }) :
    v.Leads ((v.putApproval changed).log event) := by
  refine ⟨_, rfl, Replays.cons_iff.mpr ⟨_, hevent, Replays.nil_iff.mpr ?_⟩⟩
  refine Trail.ext rfl rfl (funext fun id => ?_)
  show Function.update v.trail.requests changed.id (some changed.status) id =
    ((v.approvals.put changed).get (approvalKey v.run.runId id)).map ApprovalRequest.status
  have hkey : approvalKey v.run.runId id = changed.key ↔ id = changed.id := by
    simp [ApprovalRequest.key, approvalKey, hrunId]
  rw [KeyedTable.get_put]
  by_cases hid : id = changed.id
  · rw [if_pos (hkey.mpr hid), hid, Function.update_self]
    rfl
  · rw [if_neg (hkey.not.mpr hid), Function.update_of_ne hid]
    rfl

/-- The staged writes are those of the run, and their events lead from its states to the
new ones. -/
structure Tells (v : RunRecord) (staged : List Write) : Prop where
  own : ∀ write ∈ staged, write.Belongs v.run
  leads : v.Leads (staged.foldl apply v)

theorem Tells.nil (v : RunRecord) : v.Tells [] := ⟨by simp, .refl v⟩

theorem Tells.of_turns {staged : List Write} (hturns : v.Turns staged w) (hleads : v.Leads w) :
    v.Tells staged :=
  ⟨hturns.own, hturns.result.symm ▸ hleads⟩

theorem Tells.turns {staged : List Write} (h : v.Tells staged) :
    ∃ w, v.Turns staged w ∧ v.Leads w :=
  ⟨_, ⟨h.own, rfl⟩, h.leads⟩

end RunRecord

end ChangePilot
