import ChangePilot.Application.Operations

/-!
# What the system holds about one run

Runs share the store, the coordinator and the definitions, but an invariant of
the runtime is about one run at a time.  `RunView` is everything about one run:
its record, definition, steps, attempts, requests and events, the requests in
flight for it, and the latest reading of the clock.

The lemmas say how each write shows in the view of its own run, and that it does
not show in the view of another.
-/

namespace ChangePilot

/-- The rows of the store that belong to one run. -/
structure RunRecord where
  run : WorkflowRun
  definition : WorkflowDefinition
  steps : String → Option StepRun
  attempts : KeyedTable StepAttempt.key
  approvals : KeyedTable ApprovalRequest.key
  events : List AuditEvent

namespace RunRecord

@[simp] def setRun (v : RunRecord) (run : WorkflowRun) : RunRecord := { v with run := run }

@[simp] def setStep (v : RunRecord) (step : StepRun) : RunRecord :=
  { v with steps := Function.update v.steps step.stepId (some step) }

@[simp] def putAttempt (v : RunRecord) (attempt : StepAttempt) : RunRecord :=
  { v with attempts := v.attempts.put attempt }

@[simp] def putApproval (v : RunRecord) (request : ApprovalRequest) : RunRecord :=
  { v with approvals := v.approvals.put request }

@[simp] def log (v : RunRecord) (event : AuditEvent) : RunRecord :=
  { v with events := v.events ++ [event] }

/-- `tuple(uow.steps.get(run_id, step.id) for step in definition.steps)`. -/
def stepRuns (v : RunRecord) : List StepRun :=
  v.definition.steps.filterMap fun step => v.steps step.id

/-- `attempts.list(run_id, step_id=...)`. -/
def stepAttempts (v : RunRecord) (stepId : String) : List StepAttempt :=
  v.attempts.rows.filter fun attempt => attempt.stepId = stepId

def stateOf (v : RunRecord) (stepId : String) : Option StepState :=
  (v.steps stepId).map StepRun.state

/-! ## Rows of the run -/

/-- The rows belong to the run, under their own keys. -/
structure Keyed (v : RunRecord) : Prop where
  step : ∀ {id : String} {row : StepRun}, v.steps id = some row →
    row.stepId = id ∧ row.runId = v.run.runId
  attempt : ∀ a ∈ v.attempts.rows, a.runId = v.run.runId
  approval : ∀ request ∈ v.approvals.rows, request.runId = v.run.runId

theorem stateOf_eq_some_iff {v : RunRecord} {id : String} {state : StepState} :
    v.stateOf id = some state ↔ ∃ row, v.steps id = some row ∧ row.state = state := by
  simp [stateOf]

theorem mem_stepAttempts {v : RunRecord} {id : String} {a : StepAttempt} :
    a ∈ v.stepAttempts id ↔ a ∈ v.attempts.rows ∧ a.stepId = id := by
  simp [stepAttempts]

end RunRecord

theorem ToolExecutionPhase.value_injective : Function.Injective ToolExecutionPhase.value := by
  intro a b h
  cases a <;> cases b <;> first | rfl | exact absurd h (by decide)

theorem StepAttempt.key_eq_iff {a b : StepAttempt} :
    a.key = b.key ↔
      a.runId = b.runId ∧ a.stepId = b.stepId ∧ a.attemptNo = b.attemptNo ∧ a.phase = b.phase := by
  simp [StepAttempt.key, attemptKey, Prod.ext_iff, ToolExecutionPhase.value_injective.eq_iff]

/-- An attempt of the run is known by its step, number and phase. -/
theorem RunRecord.Keyed.attempt_eq {v : RunRecord} (hkeyed : v.Keyed) {a b : StepAttempt}
    (ha : a ∈ v.attempts.rows) (hb : b ∈ v.attempts.rows) (hstepId : a.stepId = b.stepId)
    (hattemptNo : a.attemptNo = b.attemptNo) (hphase : a.phase = b.phase) : a = b :=
  v.attempts.eq_of_key_eq ha hb <| StepAttempt.key_eq_iff.mpr
    ⟨(hkeyed.attempt a ha).trans (hkeyed.attempt b hb).symm, hstepId, hattemptNo, hphase⟩

/-! ## The step runs of a view -/

namespace RunRecord

variable {v : RunRecord}

theorem mem_stepRuns {row : StepRun} :
    row ∈ v.stepRuns ↔ ∃ step ∈ v.definition.steps, v.steps step.id = some row := by
  simp [stepRuns]

theorem Keyed.steps_of_mem_stepRuns (hkeyed : v.Keyed) {row : StepRun}
    (hrow : row ∈ v.stepRuns) : v.steps row.stepId = some row := by
  obtain ⟨step, _, hstep⟩ := mem_stepRuns.mp hrow
  rwa [(hkeyed.step hstep).1]

/-- The row that the scheduler finds for a step of the definition. -/
theorem Keyed.stepRunById (hkeyed : v.Keyed) {step : StepDefinition}
    (hstep : step ∈ v.definition.steps) :
    stepRunById v.stepRuns step.id = v.steps step.id := by
  cases hfind : ChangePilot.stepRunById v.stepRuns step.id with
  | none =>
      simp only [ChangePilot.stepRunById, List.find?_eq_none, List.mem_reverse,
        decide_eq_true_eq] at hfind
      cases hrow : v.steps step.id with
      | none => rfl
      | some row =>
          exact absurd (hkeyed.step hrow).1 (hfind row (mem_stepRuns.mpr ⟨step, hstep, hrow⟩))
  | some row =>
      have hid : row.stepId = step.id := by simpa using List.find?_some hfind
      rw [← hid, hkeyed.steps_of_mem_stepRuns
        (List.mem_reverse.mp (List.mem_of_find?_eq_some hfind))]

theorem Keyed.stepStateIs_iff (hkeyed : v.Keyed) {step : StepDefinition}
    (hstep : step ∈ v.definition.steps) {state : StepState} :
    stepStateIs v.stepRuns step.id [state] ↔ v.stateOf step.id = some state := by
  rw [stepStateIs, hkeyed.stepRunById hstep, stateOf]
  simp

theorem Keyed.stateOf_of_stepStateIs (hkeyed : v.Keyed) {id : String} {state : StepState}
    (h : stepStateIs v.stepRuns id [state]) : v.stateOf id = some state := by
  obtain ⟨row, hrow, hstate⟩ := h
  have hid : row.stepId = id := by simpa using List.find?_some hrow
  refine stateOf_eq_some_iff.mpr ⟨row, ?_, List.mem_singleton.mp hstate⟩
  rw [← hid]
  exact hkeyed.steps_of_mem_stepRuns (List.mem_reverse.mp (List.mem_of_find?_eq_some hrow))

/-- The steps that are still to be compensated. -/
theorem Keyed.mem_pending (hkeyed : v.Keyed) {pending : List StepDefinition}
    (h : pendingCompensations v.definition v.stepRuns v.attempts.rows = .ok pending)
    {step : StepDefinition} :
    step ∈ pending ↔ (step ∈ v.definition.steps ∧ step.compensationTool.isSome ∧
      v.stateOf step.id = some .succeeded ∧
        ∃ a ∈ v.attempts.rows, a.stepId = step.id ∧ a.ForwardEffect) ∧
      ∀ a ∈ v.attempts.rows, a.stepId = step.id → a.phase = .compensation → ¬ a.Completed := by
  rw [mem_pendingCompensations h]
  refine and_congr_left' (and_congr_right fun hstep => ?_)
  rw [hkeyed.stepStateIs_iff hstep]

end RunRecord

/-! ## The record in a store -/

def MemoryStore.recordOf (store : MemoryStore) (runId : String) (run : WorkflowRun)
    (definition : WorkflowDefinition) : RunRecord where
  run := run
  definition := definition
  steps := store.getStep runId
  attempts := store.attempts.restrict fun attempt => attempt.runId = runId
  approvals := store.approvals.restrict fun request => request.runId = runId
  events := (store.events runId).map SequencedEvent.event

/-- The rows of the store for `runId`, if the run and its definition exist. -/
def MemoryStore.record (store : MemoryStore) (runId : String) : Option RunRecord :=
  (store.runs.get runId).bind fun run =>
    (store.definitionOf run).map (store.recordOf runId run)

theorem MemoryStore.record_eq_some_iff {store : MemoryStore} {runId : String} {v : RunRecord} :
    store.record runId = some v ↔
      store.runs.get runId = some v.run ∧ store.definitionOf v.run = some v.definition ∧
        store.getStep runId = v.steps ∧
        store.attempts.restrict (fun attempt => attempt.runId = runId) = v.attempts ∧
        store.approvals.restrict (fun request => request.runId = runId) = v.approvals ∧
        (store.events runId).map SequencedEvent.event = v.events := by
  obtain ⟨run, definition, steps, attempts, approvals, events⟩ := v
  simp only [record, recordOf, Option.bind_eq_some_iff, Option.map_eq_some_iff,
    RunRecord.mk.injEq]
  constructor
  · rintro ⟨_, hrun, _, hdefinition, rfl, rfl, rfl, rfl, rfl, rfl⟩
    exact ⟨hrun, hdefinition, rfl, rfl, rfl, rfl⟩
  · rintro ⟨hrun, hdefinition, rfl, rfl, rfl, rfl⟩
    exact ⟨run, hrun, definition, hdefinition, rfl, rfl, rfl, rfl, rfl, rfl⟩

/-! ## Reading the view of an existing run -/

section

variable {store : MemoryStore} {runId : String} {v : RunRecord}

theorem MemoryStore.runs_get_of_record (h : store.record runId = some v) :
    store.runs.get runId = some v.run := (record_eq_some_iff.mp h).1

theorem MemoryStore.definitionOf_of_record (h : store.record runId = some v) :
    store.definitionOf v.run = some v.definition := (record_eq_some_iff.mp h).2.1

theorem MemoryStore.getStep_of_record (h : store.record runId = some v) (stepId : String) :
    store.getStep runId stepId = v.steps stepId :=
  congrFun (record_eq_some_iff.mp h).2.2.1 stepId

theorem MemoryStore.runId_of_record (h : store.record runId = some v) : v.run.runId = runId :=
  ((KeyedTable.get_eq_some_iff _).mp (runs_get_of_record h)).2

theorem MemoryStore.stepRuns_of_record (h : store.record runId = some v) :
    store.stepRuns runId v.definition = v.stepRuns := by
  simp [stepRuns, RunRecord.stepRuns, getStep_of_record h]

theorem MemoryStore.listAttempts_of_record (h : store.record runId = some v) :
    store.listAttempts runId = v.attempts.rows := by
  rw [← (record_eq_some_iff.mp h).2.2.2.1]
  rfl

theorem MemoryStore.listStepAttempts_of_record (h : store.record runId = some v)
    (stepId : String) : store.listStepAttempts runId stepId = v.stepAttempts stepId := by
  rw [RunRecord.stepAttempts, ← listAttempts_of_record h, listStepAttempts, listAttempts,
    List.filter_filter]
  simp [and_comm (a := _ = runId), Bool.and_comm]

theorem MemoryStore.listApprovals_of_record (h : store.record runId = some v) :
    store.listApprovals runId = v.approvals.rows := by
  rw [← (record_eq_some_iff.mp h).2.2.2.2.1]
  rfl

theorem MemoryStore.mem_approvals_of_record (h : store.record runId = some v)
    {requestId : String} {request : ApprovalRequest}
    (hrequest : store.approvals.get (approvalKey runId requestId) = some request) :
    request ∈ v.approvals.rows ∧ request.id = requestId := by
  obtain ⟨hmem, hkey⟩ := (KeyedTable.get_eq_some_iff _).mp hrequest
  have hrunId : request.runId = runId := congrArg (fun key => (ofLex key).1) hkey
  refine ⟨?_, congrArg (fun key => (ofLex key).2) hkey⟩
  rw [← listApprovals_of_record h]
  exact List.mem_filter.mpr ⟨hmem, by simpa using hrunId⟩

theorem MemoryStore.approvals_get_of_mem (h : store.record runId = some v)
    {request : ApprovalRequest} (hrequest : request ∈ v.approvals.rows) :
    store.approvals.get (approvalKey runId request.id) = some request := by
  rw [← listApprovals_of_record h] at hrequest
  obtain ⟨hmem, hrunId⟩ := List.mem_filter.mp hrequest
  rw [← of_decide_eq_true hrunId]
  exact KeyedTable.get_key hmem

theorem MemoryStore.runId_of_mem_record (h : store.record runId = some v) {attempt : StepAttempt}
    (hmem : attempt ∈ v.attempts.rows) : attempt.runId = runId := by
  rw [← listAttempts_of_record h] at hmem
  simpa using (List.mem_filter.mp hmem).2

theorem MemoryStore.attempts_get_of_record (h : store.record runId = some v) {stepId : String}
    {attemptNo : ℕ} {phase : ToolExecutionPhase} :
    store.attempts.get (attemptKey runId stepId attemptNo phase) =
      v.attempts.get (attemptKey runId stepId attemptNo phase) := by
  refine Option.ext fun attempt => ?_
  rw [KeyedTable.get_eq_some_iff, KeyedTable.get_eq_some_iff,
    ← (record_eq_some_iff.mp h).2.2.2.1, KeyedTable.mem_restrict]
  have hrun : attempt.key = attemptKey runId stepId attemptNo phase → attempt.runId = runId :=
    fun hkey => congrArg (fun key => (ofLex key).1) hkey
  constructor
  · rintro ⟨hmem, hkey⟩
    exact ⟨⟨hmem, by simpa using hrun hkey⟩, hkey⟩
  · rintro ⟨⟨hmem, _⟩, hkey⟩
    exact ⟨hmem, hkey⟩

end

/-- The rows of a record are those of its run. -/
theorem MemoryStore.keyed_of_record {store : MemoryStore} {runId : String} {v : RunRecord}
    (h : store.record runId = some v) : v.Keyed where
  step {id row} hrow := by
    rw [← getStep_of_record h, getStep, KeyedTable.get_eq_some_iff] at hrow
    rw [runId_of_record h]
    exact ⟨congrArg (fun key => (ofLex key).2) hrow.2, congrArg (fun key => (ofLex key).1) hrow.2⟩
  attempt a ha := by
    rw [runId_of_record h]
    exact runId_of_mem_record h ha
  approval request hrequest := by
    rw [← listApprovals_of_record h] at hrequest
    rw [runId_of_record h]
    simpa using (List.mem_filter.mp hrequest).2

/-! ## Writing to another run -/

/-- The run a write belongs to; a definition belongs to none. -/
def Write.runId? : Write → Option String
  | .addDefinition _ => none
  | .addRun run | .saveRun run _ => some run.runId
  | .addStep step | .saveStep step _ => some step.runId
  | .addAttempt attempt | .saveAttempt attempt => some attempt.runId
  | .addApproval request | .saveApproval request _ => some request.runId
  | .appendEvent event => some event.runId

namespace MemoryStore

variable {store : MemoryStore} {runId : String} {v : RunRecord}

/-- Two stores hold the same rows for the run. -/
structure Agree (runId : String) (a b : MemoryStore) : Prop where
  run : a.runs.get runId = b.runs.get runId
  steps : a.getStep runId = b.getStep runId
  attempts : a.attempts.restrict (fun attempt => attempt.runId = runId) =
    b.attempts.restrict fun attempt => attempt.runId = runId
  approvals : a.approvals.restrict (fun request => request.runId = runId) =
    b.approvals.restrict fun request => request.runId = runId
  events : a.events runId = b.events runId

theorem Agree.refl (store : MemoryStore) : store.Agree runId store := ⟨rfl, rfl, rfl, rfl, rfl⟩

theorem Agree.trans {a b c : MemoryStore} (hab : Agree runId a b) (hbc : Agree runId b c) :
    Agree runId a c :=
  ⟨hab.run.trans hbc.run, hab.steps.trans hbc.steps, hab.attempts.trans hbc.attempts,
    hab.approvals.trans hbc.approvals, hab.events.trans hbc.events⟩

theorem Agree.record_eq {a b : MemoryStore} (h : Agree runId a b)
    (hdefinitions : a.definitions = b.definitions) : a.record runId = b.record runId := by
  have hrecordOf : a.recordOf runId = b.recordOf runId := by
    funext run definition
    simp only [recordOf, h.steps, h.attempts, h.approvals, h.events]
  simp only [record, definitionOf, h.run, hdefinitions, hrecordOf]

theorem agree_putRun {run : WorkflowRun} (hrun : run.runId ≠ runId) :
    (store.putRun run).Agree runId store :=
  { Agree.refl store with run := KeyedTable.get_put_ne _ (Ne.symm hrun) }

theorem agree_putStep {step : StepRun} (hstep : step.runId ≠ runId) :
    (store.putStep step).Agree runId store :=
  { Agree.refl store with
    steps := funext fun _ => KeyedTable.get_put_ne _ fun hkey =>
      hstep (congrArg (fun key => (ofLex key).1) hkey).symm }

theorem agree_putAttempt {attempt : StepAttempt} (hattempt : attempt.runId ≠ runId) :
    (store.putAttempt attempt).Agree runId store :=
  { Agree.refl store with
    attempts := by
      refine KeyedTable.restrict_put_of_not (by simpa using hattempt) fun a b hkey => ?_
      have : a.runId = b.runId := congrArg (fun key => (ofLex key).1) hkey
      simp [this] }

theorem agree_putApproval {request : ApprovalRequest} (hrequest : request.runId ≠ runId) :
    (store.putApproval request).Agree runId store :=
  { Agree.refl store with
    approvals := by
      refine KeyedTable.restrict_put_of_not (by simpa using hrequest) fun a b hkey => ?_
      have : a.runId = b.runId := congrArg (fun key => (ofLex key).1) hkey
      simp [this] }

theorem agree_appendEvent {event : AuditEvent} (hevent : event.runId ≠ runId) :
    (store.appendEvent event).Agree runId store :=
  { Agree.refl store with events := Function.update_of_ne (Ne.symm hevent) _ _ }

/-- A write to another run is not seen. -/
theorem agree_apply {write : Write} (hwrite : write.runId? ≠ some runId) :
    (store.apply write).Agree runId store := by
  have hne {other : String} (h : some other ≠ some runId) : other ≠ runId := fun heq => h (heq ▸ rfl)
  cases write with
  | addDefinition => exact ⟨rfl, rfl, rfl, rfl, rfl⟩
  | addRun | saveRun => exact agree_putRun (hne hwrite)
  | addStep | saveStep => exact agree_putStep (hne hwrite)
  | addAttempt | saveAttempt => exact agree_putAttempt (hne hwrite)
  | addApproval | saveApproval => exact agree_putApproval (hne hwrite)
  | appendEvent => exact agree_appendEvent (hne hwrite)

theorem agree_view {writes : List Write} (hwrites : ∀ write ∈ writes, write.runId? ≠ some runId) :
    (UowM.view store writes).Agree runId store := by
  induction writes generalizing store with
  | nil => exact Agree.refl store
  | cons write rest ih =>
      exact (ih fun other hother => hwrites other (List.mem_cons_of_mem _ hother)).trans
        (agree_apply (hwrites write List.mem_cons_self))

/-- Writes that belong to a run leave the definitions alone. -/
theorem definitions_view {writes : List Write}
    (hwrites : ∀ write ∈ writes, write.runId? = some runId) :
    (UowM.view store writes).definitions = store.definitions := by
  induction writes generalizing store with
  | nil => rfl
  | cons write rest ih =>
      refine (ih fun other hother => hwrites other (List.mem_cons_of_mem _ hother)).trans ?_
      cases write with
      | addDefinition => simpa [Write.runId?] using hwrites _ List.mem_cons_self
      | _ => rfl

end MemoryStore

/-! ## Writing to the run -/

namespace MemoryStore

variable {store : MemoryStore} {runId : String} {v : RunRecord}

theorem record_putRun (h : store.record runId = some v) {run : WorkflowRun}
    (hrun : run.runId = v.run.runId) (hdefinition : run.definitionId = v.run.definitionId)
    (hversion : run.definitionVersion = v.run.definitionVersion) :
    (store.putRun run).record runId = some (v.setRun run) := by
  have hold := record_eq_some_iff.mp h
  refine record_eq_some_iff.mpr ⟨?_, ?_, hold.2.2⟩
  · rw [← runId_of_record h, ← hrun]
    exact KeyedTable.get_put_self _ _
  · have hdef := hold.2.1
    simp only [definitionOf, ← hdefinition, ← hversion] at hdef
    exact hdef

/-- A change that leaves runs and definitions alone. -/
theorem record_congr (h : store.record runId = some v) {other : MemoryStore}
    {f : RunRecord → RunRecord} (hruns : other.runs = store.runs)
    (hdefinitions : other.definitions = store.definitions)
    (hf : ∀ run definition,
      other.recordOf runId run definition = f (store.recordOf runId run definition)) :
    other.record runId = some (f v) := by
  simp only [record, Option.bind_eq_some_iff, Option.map_eq_some_iff] at h
  obtain ⟨run, hrun, definition, hdefinition, rfl⟩ := h
  simp only [record, definitionOf, hruns, hdefinitions, hrun, Option.bind_some]
  rw [show store.definitions.get _ = some definition from hdefinition, Option.map_some, hf]

theorem record_putStep (h : store.record runId = some v) {step : StepRun}
    (hstep : step.runId = v.run.runId) :
    (store.putStep step).record runId = some (v.setStep step) := by
  have hsteps : (store.putStep step).getStep runId =
      Function.update (store.getStep runId) step.stepId (some step) := by
    funext stepId
    rw [runId_of_record h] at hstep
    subst hstep
    by_cases hid : stepId = step.stepId
    · subst hid; simp [getStep, putStep, KeyedTable.get_put, StepRun.key]
    · simp [getStep, putStep, KeyedTable.get_put, StepRun.key, stepKey, hid]
  exact record_congr (f := fun v => v.setStep step) h rfl rfl fun run definition => by
    simp only [recordOf, RunRecord.setStep, hsteps]
    rfl

theorem record_putAttempt (h : store.record runId = some v) {attempt : StepAttempt}
    (hattempt : attempt.runId = v.run.runId) :
    (store.putAttempt attempt).record runId = some (v.putAttempt attempt) := by
  rw [runId_of_record h] at hattempt
  exact record_congr (f := fun v => v.putAttempt attempt) h rfl rfl fun run definition => by
    simp only [recordOf, RunRecord.putAttempt, putAttempt]
    rw [KeyedTable.restrict_put (by simpa using hattempt)]
    rfl

theorem record_putApproval (h : store.record runId = some v) {request : ApprovalRequest}
    (hrequest : request.runId = v.run.runId) :
    (store.putApproval request).record runId = some (v.putApproval request) := by
  rw [runId_of_record h] at hrequest
  exact record_congr (f := fun v => v.putApproval request) h rfl rfl fun run definition => by
    simp only [recordOf, RunRecord.putApproval, putApproval]
    rw [KeyedTable.restrict_put (by simpa using hrequest)]
    rfl

theorem record_appendEvent (h : store.record runId = some v) {event : AuditEvent}
    (hevent : event.runId = v.run.runId) :
    (store.appendEvent event).record runId = some (v.log event) := by
  rw [runId_of_record h] at hevent
  exact record_congr (f := fun v => v.log event) h rfl rfl fun run definition => by
    subst hevent
    simp [recordOf, RunRecord.log, appendEvent]
    rfl

end MemoryStore

/-! ## Writes on the record -/

/-- The write is one of the run's own and leaves its identity alone. -/
def Write.Belongs (run : WorkflowRun) : Write → Prop
  | .addDefinition _ => False
  | .addRun changed | .saveRun changed _ => changed.runId = run.runId ∧
      changed.definitionId = run.definitionId ∧
        changed.definitionVersion = run.definitionVersion
  | .addStep step | .saveStep step _ => step.runId = run.runId
  | .addAttempt attempt | .saveAttempt attempt => attempt.runId = run.runId
  | .addApproval request | .saveApproval request _ => request.runId = run.runId
  | .appendEvent event => event.runId = run.runId

/-- What a write of the run does to its record. -/
def RunRecord.apply (v : RunRecord) : Write → RunRecord
  | .addDefinition _ => v
  | .addRun run | .saveRun run _ => v.setRun run
  | .addStep step | .saveStep step _ => v.setStep step
  | .addAttempt attempt | .saveAttempt attempt => v.putAttempt attempt
  | .addApproval request | .saveApproval request _ => v.putApproval request
  | .appendEvent event => v.log event

section

variable (run : WorkflowRun) (v : RunRecord)

@[simp] theorem Write.belongs_saveRun (changed : WorkflowRun) (expected : ℕ) :
    (Write.saveRun changed expected).Belongs run ↔ changed.runId = run.runId ∧
      changed.definitionId = run.definitionId ∧
        changed.definitionVersion = run.definitionVersion := Iff.rfl

@[simp] theorem Write.belongs_saveStep (step : StepRun) (expected : ℕ) :
    (Write.saveStep step expected).Belongs run ↔ step.runId = run.runId := Iff.rfl

@[simp] theorem Write.belongs_addAttempt (attempt : StepAttempt) :
    (Write.addAttempt attempt).Belongs run ↔ attempt.runId = run.runId := Iff.rfl

@[simp] theorem Write.belongs_saveAttempt (attempt : StepAttempt) :
    (Write.saveAttempt attempt).Belongs run ↔ attempt.runId = run.runId := Iff.rfl

@[simp] theorem Write.belongs_addApproval (request : ApprovalRequest) :
    (Write.addApproval request).Belongs run ↔ request.runId = run.runId := Iff.rfl

@[simp] theorem Write.belongs_saveApproval (request : ApprovalRequest) (expected : ℕ) :
    (Write.saveApproval request expected).Belongs run ↔ request.runId = run.runId := Iff.rfl

@[simp] theorem Write.belongs_appendEvent (event : AuditEvent) :
    (Write.appendEvent event).Belongs run ↔ event.runId = run.runId := Iff.rfl

@[simp] theorem RunRecord.apply_saveRun (changed : WorkflowRun) (expected : ℕ) :
    v.apply (.saveRun changed expected) = v.setRun changed := rfl

@[simp] theorem RunRecord.apply_saveStep (step : StepRun) (expected : ℕ) :
    v.apply (.saveStep step expected) = v.setStep step := rfl

@[simp] theorem RunRecord.apply_addAttempt (attempt : StepAttempt) :
    v.apply (.addAttempt attempt) = v.putAttempt attempt := rfl

@[simp] theorem RunRecord.apply_saveAttempt (attempt : StepAttempt) :
    v.apply (.saveAttempt attempt) = v.putAttempt attempt := rfl

@[simp] theorem RunRecord.apply_addApproval (request : ApprovalRequest) :
    v.apply (.addApproval request) = v.putApproval request := rfl

@[simp] theorem RunRecord.apply_saveApproval (request : ApprovalRequest) (expected : ℕ) :
    v.apply (.saveApproval request expected) = v.putApproval request := rfl

@[simp] theorem RunRecord.apply_appendEvent (event : AuditEvent) :
    v.apply (.appendEvent event) = v.log event := rfl

end

theorem Write.Belongs.runId? {run : WorkflowRun} {write : Write} (h : write.Belongs run) :
    write.runId? = some run.runId := by
  cases write <;> simp_all [Belongs, Write.runId?]

/-- A write keeps the identity of the run, so that later writes belong to it too. -/
theorem RunRecord.belongs_apply {v : RunRecord} {write other : Write}
    (h : write.Belongs v.run) : other.Belongs (v.apply write).run ↔ other.Belongs v.run := by
  cases write <;> cases other <;>
    simp_all [Write.Belongs, RunRecord.apply]

theorem MemoryStore.record_apply {store : MemoryStore} {runId : String} {v : RunRecord}
    (h : store.record runId = some v) {write : Write} (hwrite : write.Belongs v.run) :
    (store.apply write).record runId = some (v.apply write) := by
  cases write with
  | addDefinition => exact hwrite.elim
  | addRun | saveRun => exact record_putRun h hwrite.1 hwrite.2.1 hwrite.2.2
  | addStep | saveStep => exact record_putStep h hwrite
  | addAttempt | saveAttempt => exact record_putAttempt h hwrite
  | addApproval | saveApproval => exact record_putApproval h hwrite
  | appendEvent => exact record_appendEvent h hwrite

theorem MemoryStore.record_view {store : MemoryStore} {runId : String} {v : RunRecord}
    (h : store.record runId = some v) {writes : List Write}
    (hwrites : ∀ write ∈ writes, write.Belongs v.run) :
    (UowM.view store writes).record runId = some (writes.foldl RunRecord.apply v) := by
  induction writes generalizing store v with
  | nil => exact h
  | cons write rest ih =>
      have hwrite := hwrites write List.mem_cons_self
      exact ih (record_apply h hwrite) fun other hother =>
        (RunRecord.belongs_apply hwrite).mpr (hwrites other (List.mem_cons_of_mem _ hother))

end ChangePilot
