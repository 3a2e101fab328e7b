import ChangePilot.System.World

/-!
# The process keeps to its guards

Every operation that the coordinator and recovery perform is enabled, whatever the
surroundings do in between: what a call has read about a run stays true until it
acts on it, because only the process itself starts, finishes and recovers attempts.

Each program is gone through by the rules of `Safe`.  What is known of the run is a
statement about its view (`Shared.Sees`): an operation that reads establishes it, the
surroundings keep it (`Surrounded`), and the operation that acts uses it.  For the loops
the statement is about the rest of the list (`RunView.Ready`, `RunView.Offers`).
-/

namespace ChangePilot

/-! ## What a call knows of a run -/

namespace Shared

/-- The run exists, and its view satisfies `P`. -/
def Sees (runId : String) (P : RunView → Prop) (s : Shared) : Prop :=
  ∃ v, s.view runId = some v ∧ P v

variable {cfg : Deployment} {s t : Shared} {runId : String} {P Q : RunView → Prop}

theorem Sees.imp (h : s.Sees runId P) (hPQ : ∀ v, P v → Q v) : s.Sees runId Q := by
  obtain ⟨v, hv, hP⟩ := h
  exact ⟨v, hv, hPQ v hP⟩

theorem Sees.and (hP : s.Sees runId P) (hQ : s.Sees runId Q) :
    s.Sees runId fun v => P v ∧ Q v := by
  obtain ⟨v, hv, hP⟩ := hP
  obtain ⟨w, hw, hQ⟩ := hQ
  obtain rfl := Option.some.inj (hv.symm.trans hw)
  exact ⟨v, hv, hP, hQ⟩

theorem Sees.of_view (h : s.Sees runId P) {v : RunView} (hv : s.view runId = some v) : P v := by
  obtain ⟨w, hw, hP⟩ := h
  obtain rfl := Option.some.inj (hw.symm.trans hv)
  exact hP

/-- A fact that the surroundings keep. -/
theorem Sees.rely (h : s.Sees runId P) (hrely : s.Rely t)
    (hP : ∀ v v', P v → v.Surrounded v' → P v') : t.Sees runId P := by
  obtain ⟨v, hv, hPv⟩ := h
  obtain ⟨v', hv', hsurrounded⟩ := hrely.views runId v hv
  exact ⟨v', hv', hP v v' hPv hsurrounded⟩

/-- A fact that an operation keeps. -/
theorem Sees.advances {cause : Cause} (h : s.Sees runId P) (hadvances : s.Advances cfg cause t)
    (hP : ∀ v v', P v → RunMove cfg v cause v' → P v') : t.Sees runId P := by
  obtain ⟨v, hv, hPv⟩ := h
  obtain ⟨v', hv', rfl | hmove⟩ := hadvances.view hv
  · exact ⟨v', hv', hPv⟩
  · exact ⟨v', hv', hP v v' hPv hmove⟩

end Shared

/-! ## Facts that the surroundings keep -/

namespace RunView.Surrounded

variable {cfg : Deployment} {v v' : RunView}

theorem stepAttempts_eq (h : v.Surrounded v') (id : String) :
    v'.stepAttempts id = v.stepAttempts id := by
  rw [RunRecord.stepAttempts, h.attempts, RunRecord.stepAttempts]

theorem stepRuns_eq (h : v.Surrounded v') : v'.stepRuns = v.stepRuns := by
  rw [RunRecord.stepRuns, h.definition, h.steps, RunRecord.stepRuns]

theorem stateOf_eq (h : v.Surrounded v') (id : String) : v'.stateOf id = v.stateOf id := by
  rw [RunRecord.stateOf, h.steps, RunRecord.stateOf]

theorem admitted (h : v.Surrounded v') {step : StepDefinition} (hv : v.Admitted cfg step) :
    v'.Admitted cfg step := by
  refine hv.imp_right ?_
  rintro ⟨snapshot, hsnapshot, request, hrequest, happroves⟩
  refine ⟨snapshot, h.definition ▸ hsnapshot, request, h.approved request hrequest happroves.1, ?_⟩
  rw [h.definition]
  exact happroves

theorem isNext (h : v.Surrounded v') {id : String} {kind : ToolExecutionPhase}
    {attempt : StepAttempt} (hv : v.IsNext id kind attempt) : v'.IsNext id kind attempt :=
  { hv with
    runId := hv.runId.trans h.runId.symm
    attemptNo := by rw [h.stepAttempts_eq]; exact hv.attemptNo }

theorem quiet (h : v.Surrounded v') (hv : v.Quiet) : v'.Quiet where
  steps step hstep := by
    rw [h.stateOf_eq]
    exact hv.steps step (h.definition ▸ hstep)
  attempts := h.attempts ▸ hv.attempts

theorem settled (h : v.Surrounded v') {pending : List StepDefinition} (hv : v.Settled pending) :
    v'.Settled pending where
  quiet := h.quiet hv.quiet
  drained := h.inFlight.trans hv.drained
  pending := by
    rw [h.definition, h.stepRuns_eq, h.attempts]
    exact hv.pending

theorem startable (h : v.Surrounded v') {prepared : PreparedAttempt}
    (hv : v.Startable cfg prepared) : v'.Startable cfg prepared where
  next := h.isNext hv.next
  runId := hv.runId
  context := hv.context
  phase := by
    refine hv.phase.imp (fun ⟨hphase, hstep, hadmitted⟩ => ⟨hphase, h.definition ▸ hstep,
      h.admitted hadmitted⟩) fun ⟨hphase, rest, hsettled⟩ => ⟨hphase, rest, h.settled hsettled⟩

theorem unsubmitted (h : v.Surrounded v') {prepared : PreparedAttempt}
    (hv : v.Unsubmitted prepared) : v'.Unsubmitted prepared where
  recorded := h.attempts ▸ hv.recorded
  notInFlight := h.inFlight ▸ hv.notInFlight

theorem barred (h : v.Surrounded v') {stepId : String} (hv : v.Barred stepId) :
    v'.Barred stepId where
  drained := h.inFlight.trans hv.drained
  ready := (h.stateOf_eq stepId).trans hv.ready

end RunView.Surrounded

/-! ## Safe calls -/

/-- Every operation of the call is enabled, and what it returns satisfies `P`. -/
def Activity.Safe {α : Type} (cfg : Deployment) (P : α → Shared → Prop) (activity : Activity α)
    (s : Shared) : Prop :=
  Routine.Safe (exec cfg) Shared.Rely Shared.WellFormed (fun op s => op.Enabled cfg s) P
    activity s

namespace Activity.Safe

variable {cfg : Deployment} {α β : Type} {s : Shared} {P : α → Shared → Prop}
  {Q : β → Shared → Prop}

theorem pure {a : α} (h : P a s) : Activity.Safe cfg P (pure a) s := h

theorem mono {P' : α → Shared → Prop} {activity : Activity α} (h : activity.Safe cfg P s)
    (hP : ∀ a t, P a t → P' a t) : activity.Safe cfg P' s :=
  Routine.Safe.mono hP h

theorem bind {activity : Activity α} {f : α → Activity β} (h : activity.Safe cfg P s)
    (hf : ∀ a t, P a t → (f a).Safe cfg Q t) : (activity >>= f).Safe cfg Q s :=
  Routine.Safe.bind h hf

theorem map {activity : Activity α} {f : α → β} (h : activity.Safe cfg (fun a t => Q (f a) t) s) :
    (f <$> activity).Safe cfg Q s :=
  Routine.Safe.map h

theorem lift_bind {x : Except Error α} {f : α → Activity β}
    (h : ∀ a, x = .ok a → (f a).Safe cfg Q s) : (Activity.lift x >>= f).Safe cfg Q s := by
  cases x with
  | error e => trivial
  | ok a => exact h a rfl

/-- The rule for one operation and what comes after it. -/
theorem operation_bind {op : Op} {f : op.Ans → Activity β}
    (h : ∀ t, s.Rely t → t.WellFormed → op.Enabled cfg t ∧ ∀ inputs a,
      (exec cfg op inputs t).1 = .ok a → (f a).Safe cfg Q (exec cfg op inputs t).2) :
    (Activity.operation op >>= f).Safe cfg Q s :=
  Routine.Safe.perform_bind h

theorem operation {op : Op} {P : op.Ans → Shared → Prop}
    (h : ∀ t, s.Rely t → t.WellFormed → op.Enabled cfg t ∧ ∀ inputs a,
      (exec cfg op inputs t).1 = .ok a → P a (exec cfg op inputs t).2) :
    (Activity.operation op).Safe cfg P s :=
  Routine.Safe.perform h

end Activity.Safe

variable {cfg : Deployment} {s : Shared} {runId : String}

/-! ## Collecting -/

theorem collectEach_safe (instant : Timestamp) (ids : List ℕ) :
    ∀ {s : Shared}, (collectEach instant ids).Safe cfg (fun _ _ => True) s := by
  induction ids with
  | nil => intro s; exact .pure trivial
  | cons id rest ih =>
      intro s
      refine .operation_bind fun t _ _ => ⟨trivial, fun _ result _ => ?_⟩
      refine ih.bind fun _ _ _ => ?_
      cases result <;> exact .pure trivial

theorem collectOutcomes_safe : collectOutcomes.Safe cfg (fun _ _ => True) s := by
  refine .operation_bind fun t _ _ => ⟨trivial, fun _ instant _ => ?_⟩
  exact .operation_bind fun t _ _ => ⟨trivial, fun _ ids _ => collectEach_safe instant ids⟩

theorem dispatchedReport_safe (completed : List ExecutionOutcome) (dispatched : List String) :
    (dispatchedReport runId completed dispatched).Safe cfg (fun _ _ => True) s :=
  collectOutcomes_safe.bind fun _ _ _ => .pure trivial

/-! ## Reading -/

theorem Shared.sees_of_load {definition : WorkflowDefinition} {stepRuns : List StepRun}
    (h : s.loadDefinitionAndSteps runId = .ok (definition, stepRuns)) :
    s.Sees runId fun v => v.definition = definition ∧ v.stepRuns = stepRuns := by
  unfold loadDefinitionAndSteps at h
  cases hrun : s.store.runs.get runId with
  | none => simp [hrun] at h
  | some run =>
      cases hdefinition : s.store.definitionOf run with
      | none => simp [hrun, hdefinition] at h
      | some stored =>
          simp only [hrun, hdefinition] at h
          split at h
          · exact nomatch h
          · simp only [Except.pure_eq_ok_iff, Prod.mk.injEq] at h
            obtain ⟨rfl, rfl⟩ := h
            have hrecord : s.store.record runId = some (s.store.recordOf runId run stored) := by
              simp [MemoryStore.record, hrun, hdefinition]
            exact ⟨_, view_of_record hrecord, rfl, (MemoryStore.stepRuns_of_record hrecord).symm⟩

/-- What has been prepared for a phase of a step. -/
structure RunView.Prepares (v : RunView) (step : StepDefinition) (phase : ToolExecutionPhase)
    (prepared : PreparedAttempt) : Prop where
  step_eq : prepared.step = step
  phase_eq : prepared.attempt.phase = phase
  next : v.IsNext step.id phase prepared.attempt
  runId : prepared.context.runId = prepared.attempt.runId
  context : prepared.context.IsFor prepared.attempt

theorem RunView.Prepares.startable {v : RunView} {step : StepDefinition}
    {phase : ToolExecutionPhase} {prepared : PreparedAttempt}
    (h : v.Prepares step phase prepared)
    (hphase : (phase = .forward ∧ step ∈ v.definition.steps ∧ v.Admitted cfg step) ∨
      (phase = .compensation ∧ ∃ rest, v.Settled (step :: rest))) :
    v.Startable cfg prepared := by
  obtain ⟨rfl, rfl, hnext, hrunId, hcontext⟩ := h
  exact ⟨hnext, hrunId, hcontext, hphase⟩

theorem prepares_of_prepareAttempt {v : RunView} {step : StepDefinition}
    {phase : ToolExecutionPhase} {startedAt : Timestamp} {attemptId : String}
    {prepared : PreparedAttempt}
    (h : prepareAttempt cfg v.run.runId step phase (v.stepAttempts step.id) startedAt attemptId =
      .ok prepared) : v.Prepares step phase prepared := by
  unfold prepareAttempt at h
  split at h
  case h_2 => simp at h
  simp only [Except.bind_eq_ok_iff, Except.pure_eq_ok_iff] at h
  obtain ⟨descriptor, _, arguments, _, key, _, deadline, _, context, hcontext, rfl⟩ := h
  obtain rfl := ToolExecutionContext.new_eq_ok hcontext
  exact ⟨rfl, rfl, ⟨rfl, rfl, rfl, rfl, rfl, rfl, rfl, rfl⟩, rfl, ⟨rfl, rfl, rfl⟩⟩

/-- Preparing an attempt, with `P` known of the run. -/
theorem prepare_safe {P : RunView → Prop} {step : StepDefinition} {phase : ToolExecutionPhase}
    (hP : ∀ v v', P v → v.Surrounded v' → P v') (h : s.Sees runId P) :
    (prepare cfg runId step phase).Safe cfg (fun prepared t =>
      t.Sees runId fun v => P v ∧ v.Prepares step phase prepared) s := by
  refine .operation_bind fun t hrely _ => ⟨trivial, fun _ attempts hattempts => ?_⟩
  have hread : t.Sees runId fun v => P v ∧ v.stepAttempts step.id = attempts := by
    obtain ⟨v, hv, hPv⟩ := h.rely hrely hP
    refine ⟨v, hv, hPv, ?_⟩
    have hrecord := (Shared.view_eq_some_iff.mp hv).1
    simp only [exec, readForAttempt, MemoryStore.runs_get_of_record hrecord] at hattempts
    split at hattempts
    · rw [← MemoryStore.listStepAttempts_of_record hrecord]
      exact Except.ok.inj hattempts
    · simp at hattempts
  have hstable : ∀ v v' : RunView, P v ∧ v.stepAttempts step.id = attempts → v.Surrounded v' →
      P v' ∧ v'.stepAttempts step.id = attempts := fun v v' hv hsurrounded =>
    ⟨hP v v' hv.1 hsurrounded, (hsurrounded.stepAttempts_eq step.id).trans hv.2⟩
  refine .operation_bind fun t' hrely' _ => ⟨trivial, fun _ startedAt _ => ?_⟩
  refine .operation_bind fun t'' hrely'' _ => ⟨trivial, fun _ attemptId _ => ?_⟩
  obtain ⟨v, hv, hPv, rfl⟩ := (hread.rely hrely' hstable).rely hrely'' hstable
  cases hprepared : prepareAttempt cfg runId step phase (v.stepAttempts step.id) startedAt
      attemptId with
  | error e => trivial
  | ok prepared =>
      obtain rfl := MemoryStore.runId_of_record (Shared.view_eq_some_iff.mp hv).1
      exact ⟨v, hv, hPv, prepares_of_prepareAttempt hprepared⟩

/-! ## Starting -/

/-- The attempts of the other steps stay. -/
theorem RunRecord.stepAttempts_put_ne {v w : RunRecord} {a : StepAttempt}
    (hattempts : w.attempts = v.attempts.put a) {id : String} (hid : a.stepId ≠ id) :
    w.stepAttempts id = v.stepAttempts id := by
  have := KeyedTable.restrict_put_of_not (t := v.attempts)
    (p := fun attempt => attempt.stepId = id) (v := a) (by simpa using hid)
    fun x y hkey => by simp [(StepAttempt.key_eq_iff.mp hkey).2.1]
  rw [stepAttempts, hattempts]
  exact congrArg KeyedTable.rows this

/-- What the start or the outcome of an attempt leaves alone. -/
structure RunView.Touches (v : RunView) (stepId : String) (v' : RunView) : Prop where
  definition : v'.definition = v.definition
  runId : v'.run.runId = v.run.runId
  approvals : v'.approvals = v.approvals
  attempts : ∀ id, id ≠ stepId → v'.stepAttempts id = v.stepAttempts id

section

variable {v v' : RunView}

theorem RunMove.start_touches {attempt : StepAttempt} (h : RunMove cfg v (.start attempt) v') :
    v.Touches attempt.stepId v' := by
  cases h with
  | forwardStarted _ hrun =>
      refine ⟨rfl, ?_, rfl, fun id hid => RunRecord.stepAttempts_put_ne rfl hid.symm⟩
      rcases hrun with ⟨_, rfl⟩ | ⟨_, rfl⟩ <;> rfl
  | compensationStarted =>
      exact ⟨rfl, rfl, rfl, fun id hid => RunRecord.stepAttempts_put_ne rfl hid.symm⟩

theorem RunMove.outcome_touches {outcome : ExecutionOutcome}
    (h : RunMove cfg v (.outcome outcome) v') : v.Touches outcome.stepId v' := by
  cases h with
  | forwardFinished _ _ _ _ _ hattempt _ _ _ hsettles =>
      obtain ⟨_, hid, _⟩ := RunRecord.findAttempt_eq_some hattempt
      refine ⟨rfl, ?_, rfl, fun id hne => RunRecord.stepAttempts_put_ne rfl (hid ▸ hne.symm)⟩
      cases hsettles <;> rfl
  | compensationFinished _ _ hattempt _ hsettles =>
      obtain ⟨_, hid, _⟩ := RunRecord.findAttempt_eq_some hattempt
      refine ⟨rfl, ?_, rfl, fun id hne => RunRecord.stepAttempts_put_ne rfl (hid ▸ hne.symm)⟩
      cases hsettles <;> rfl

/-- A prepared forward attempt waits while other steps are started and finished. -/
theorem RunView.Touches.startable {stepId : String} {prepared : PreparedAttempt}
    (h : v.Touches stepId v') (hv : v.Startable cfg prepared)
    (hphase : prepared.attempt.phase = .forward) (hid : prepared.step.id ≠ stepId) :
    v'.Startable cfg prepared := by
  rcases hv.phase with ⟨_, hstep, hadmitted⟩ | ⟨hother, _⟩
  · refine ⟨{ hv.next with
      runId := hv.next.runId.trans h.runId.symm
      attemptNo := by rw [h.attempts _ hid]; exact hv.next.attemptNo }, hv.runId, hv.context,
      Or.inl ⟨hphase, h.definition ▸ hstep, ?_⟩⟩
    rw [RunRecord.Admitted, h.definition, h.approvals]
    exact hadmitted
  · exact absurd (hphase.symm.trans hother) (by decide)

end

theorem RunRecord.Started.mem {v v' : RunRecord} {attempt : StepAttempt}
    (h : v.Started attempt v') : attempt ∈ v'.attempts.rows := by
  rcases h with ⟨_, _, _, _, _, _, _, _, rfl⟩ | ⟨_, _, _, _, rfl⟩ <;>
    exact KeyedTable.mem_put.mpr (Or.inl rfl)

/-- A start whose request nobody took. -/
theorem Shared.unsubmitted_of_dispatch {t : Shared} {prepared : PreparedAttempt}
    {submitFails : Bool} {v : RunView} (ht : t.WellFormed)
    (hv : t.view prepared.attempt.runId = some v) (hstartable : v.Startable cfg prepared)
    (h : (t.dispatch prepared submitFails).1 = .ok false) :
    (t.dispatch prepared submitFails).2.Sees prepared.attempt.runId
      fun v => v.Unsubmitted prepared := by
  have hnext := hstartable.next
  unfold dispatch inStore at h ⊢
  cases htransact : t.store.transact (commitAttemptStarted prepared.attempt) with
  | error e => simp [htransact] at h
  | ok result =>
      obtain ⟨_, next⟩ := result
      simp only [htransact] at h ⊢
      split at h
      case isFalse => simp at h
      case isTrue hfails =>
        have hall (w : RunView) (hw : t.view prepared.attempt.runId = some w) :
            w.Startable cfg prepared := by
          obtain rfl := Option.some.inj (hv.symm.trans hw)
          exact hstartable
        -- the attempt is stored as running, and no future runs it
        obtain ⟨record, record', hrecord, hrecord', hstarted⟩ :=
          (commitAttemptStarted_turned ht hall htransact).own
        rw [if_pos hfails]
        refine ⟨_, view_of_record hrecord', ⟨prepared.attempt, hstarted.mem, hnext.status,
          hstartable.context⟩, fun future hfuture => ?_⟩
        -- a future of that number would be of an earlier attempt
        rintro ⟨hstepId, hattemptNo, hphase⟩
        have hmem : future ∈ v.inFlight := (view_eq_some_iff.mp hv).2.1.symm ▸ hfuture
        obtain ⟨a, ha, hfor⟩ := (ht.sound _ v hv).inFlight future hmem
        have hstep : a.stepId = prepared.step.id := hfor.stepId.symm.trans
          (hstepId.trans (hstartable.context.stepId.trans hnext.stepId))
        have hlt := lt_nextAttemptNo (RunRecord.mem_stepAttempts.mpr ⟨ha, hstep⟩)
          (hfor.phase.symm.trans (hphase.trans hstartable.context.phase))
        rw [← hnext.attemptNo, ← hfor.attemptNo, hattemptNo, hstartable.context.attemptNo] at hlt
        exact lt_irrefl _ hlt

/-- The prepared attempts of a list, for distinct steps of the run. -/
structure RunView.Ready (cfg : Deployment) (v : RunView) (attempts : List PreparedAttempt) :
    Prop where
  startable : ∀ prepared ∈ attempts, v.Startable cfg prepared
  forward : ∀ prepared ∈ attempts, prepared.attempt.phase = .forward
  distinct : (attempts.map fun prepared => prepared.step.id).Nodup

theorem RunView.Ready.tail {v : RunView} {prepared : PreparedAttempt}
    {rest : List PreparedAttempt} (h : v.Ready cfg (prepared :: rest)) : v.Ready cfg rest :=
  ⟨fun p hp => h.startable p (List.mem_cons_of_mem _ hp),
    fun p hp => h.forward p (List.mem_cons_of_mem _ hp), (List.nodup_cons.mp h.distinct).2⟩

theorem RunView.Ready.touched {v v' : RunView} {prepared : PreparedAttempt}
    {rest : List PreparedAttempt} (h : v.Ready cfg rest)
    (htouches : v.Touches prepared.step.id v')
    (hdistinct : prepared.step.id ∉ rest.map fun prepared => prepared.step.id) :
    v'.Ready cfg rest where
  startable p hp := htouches.startable (h.startable p hp) (h.forward p hp)
    fun hid => hdistinct (List.mem_map.mpr ⟨p, hp, hid⟩)
  forward := h.forward
  distinct := h.distinct

theorem RunView.Surrounded.ready {v v' : RunView} (h : v.Surrounded v')
    {attempts : List PreparedAttempt} (hv : v.Ready cfg attempts) : v'.Ready cfg attempts :=
  ⟨fun p hp => h.startable (hv.startable p hp), hv.forward, hv.distinct⟩

theorem dispatchEach_safe (attempts : List PreparedAttempt) : ∀ {s : Shared},
    s.Sees runId (fun v => v.Ready cfg attempts) →
      (dispatchEach runId attempts).Safe cfg (fun _ _ => True) s := by
  induction attempts with
  -- the attempts in turn, each of them still startable when it comes up
  | nil => intro s _; exact .pure trivial
  | cons prepared rest ih =>
      intro s h
      refine .operation_bind fun t hrely ht => ?_
      obtain ⟨v, hv, hready⟩ := h.rely hrely fun v v' hv hsurrounded => hsurrounded.ready hv
      have hstartable := hready.startable prepared List.mem_cons_self
      have hrunId : prepared.attempt.runId = runId := hstartable.next.runId.trans
        (MemoryStore.runId_of_record (Shared.view_eq_some_iff.mp hv).1)
      have henabled : (Op.dispatch prepared).Enabled cfg t := by
        intro w hw
        obtain rfl := Option.some.inj (hv.symm.trans (hrunId ▸ hw))
        exact hstartable
      refine ⟨henabled, fun inputs submitted hanswer => ?_⟩
      have hadvances := exec_advances ht (.dispatch prepared) henabled inputs
      -- starting one step leaves the others ready
      have hrest : (exec cfg (.dispatch prepared) inputs t).2.Sees runId
          fun v => v.Ready cfg rest := by
        refine Shared.Sees.advances ⟨v, hv, hready.tail⟩ hadvances fun v v' hv hmove => ?_
        have htouches := RunMove.start_touches hmove
        rw [hstartable.next.stepId] at htouches
        exact hv.touched htouches (List.nodup_cons.mp hready.distinct).1
      cases submitted
      -- a submitted attempt is left to the collection
      case true => exact (ih hrest).bind fun _ _ _ => .pure trivial
      -- a refused one is recorded as failed by this turn
      have hunsubmitted := Shared.unsubmitted_of_dispatch ht (hrunId ▸ hv) hstartable hanswer
      refine .operation_bind fun t' hrely' ht' => ?_
      have hrest' := hrest.rely hrely' fun v v' hv hsurrounded => hsurrounded.ready hv
      have hunsubmitted' := hunsubmitted.rely hrely' fun v v' hv hsurrounded =>
        hsurrounded.unsubmitted hv
      have henabled' : (Op.persistSubmissionFailure prepared .retryable).Enabled cfg t' :=
        fun w hw => hunsubmitted'.of_view (hstartable.runId ▸ hw)
      refine ⟨henabled', fun inputs' _ _ => ?_⟩
      have hrest'' : (exec cfg (.persistSubmissionFailure prepared .retryable) inputs' t').2.Sees
          runId fun v => v.Ready cfg rest := by
        refine hrest'.advances (exec_advances ht' _ henabled' inputs') fun v v' hv hmove => ?_
        have htouches := RunMove.outcome_touches hmove
        rw [show (failedOutcome prepared.context _ _).stepId = prepared.step.id from
          hstartable.context.stepId.trans hstartable.next.stepId] at htouches
        exact hv.touched htouches (List.nodup_cons.mp hready.distinct).1
      -- the turn looks at the run before it goes on
      refine .operation_bind fun t'' hrely'' _ => ⟨trivial, fun _ run _ => ?_⟩
      split
      · exact .pure trivial
      · refine (ih ?_).bind fun _ _ _ => .pure trivial
        exact hrest''.rely hrely'' fun v v' hv hsurrounded => hsurrounded.ready hv

theorem RunView.Surrounded.prepares {v v' : RunView} (h : v.Surrounded v') {step : StepDefinition}
    {phase : ToolExecutionPhase} {prepared : PreparedAttempt}
    (hv : v.Prepares step phase prepared) : v'.Prepares step phase prepared :=
  { hv with next := h.isNext hv.next }

theorem prepareEach_safe (steps : List StepDefinition) : ∀ {P : RunView → Prop} {s : Shared},
    (∀ v v', P v → v.Surrounded v' → P v') → s.Sees runId P →
      (prepareEach cfg runId steps).Safe cfg (fun prepared t =>
        prepared.map PreparedAttempt.step = steps ∧ t.Sees runId fun v => P v ∧
          ∀ p ∈ prepared, v.Prepares p.step .forward p) s := by
  induction steps with
  | nil => intro P s _ h; exact .pure ⟨rfl, h.imp fun v hv => ⟨hv, by simp⟩⟩
  | cons step rest ih =>
      intro P s hP h
      refine (prepare_safe hP h).bind fun prepared t ht => ?_
      have hstable : ∀ v v' : RunView, P v ∧ v.Prepares step .forward prepared →
          v.Surrounded v' → P v' ∧ v'.Prepares step .forward prepared :=
        fun v v' hv hsurrounded => ⟨hP v v' hv.1 hsurrounded, hsurrounded.prepares hv.2⟩
      refine (ih hstable ht).bind fun others t' ⟨hothers, ht'⟩ => .pure ⟨?_, ?_⟩
      · obtain ⟨v, _, ⟨_, hprepares⟩, _⟩ := ht'
        rw [List.map_cons, hothers, hprepares.step_eq]
      · refine ht'.imp fun v ⟨⟨hPv, hprepares⟩, hrest⟩ => ⟨hPv, ?_⟩
        exact List.forall_mem_cons.mpr ⟨hprepares.step_eq ▸ hprepares, hrest⟩

/-- Steps of the run that may be started. -/
def RunView.Offers (cfg : Deployment) (v : RunView) (steps : List StepDefinition) : Prop :=
  ∀ step ∈ steps, step ∈ v.definition.steps ∧ v.Admitted cfg step

theorem RunView.Surrounded.offers {v v' : RunView} (h : v.Surrounded v')
    {steps : List StepDefinition} (hv : v.Offers cfg steps) : v'.Offers cfg steps :=
  fun step hstep => ⟨h.definition ▸ (hv step hstep).1, h.admitted (hv step hstep).2⟩

theorem dispatchCandidates_safe {completed : List ExecutionOutcome} {stepRuns : List StepRun}
    {capacity : ℕ} {steps : List StepDefinition} (hdistinct : (steps.map StepDefinition.id).Nodup)
    (h : s.Sees runId fun v => v.Offers cfg steps) :
    (dispatchCandidates cfg runId completed stepRuns capacity steps).Safe cfg
      (fun _ _ => True) s := by
  unfold dispatchCandidates
  have hoffers : s.Sees runId fun v => v.Offers cfg (steps.take capacity) :=
    h.imp fun v hv step hstep => hv step (List.mem_of_mem_take hstep)
  have hnodup : ((steps.take capacity).map StepDefinition.id).Nodup :=
    hdistinct.sublist ((List.take_sublist _ _).map _)
  generalize steps.take capacity = candidates at hoffers hnodup
  -- without a free slot there is nothing to prepare
  by_cases hempty : candidates.isEmpty
  · simp only [hempty, if_true]
    exact .operation_bind fun t _ _ => ⟨trivial, fun _ run _ => .pure trivial⟩
  · simp only [hempty]
    refine Activity.Safe.bind (P := fun prepared t => ∀ attempts, prepared = some attempts →
      t.Sees runId fun v => v.Ready cfg attempts) ?_ fun prepared t ht => ?_
    -- preparing may raise, but not start anything
    · refine Routine.Safe.tryCatch (Activity.Safe.map ?_) fun _ _ => .pure (by simp)
      refine (prepareEach_safe candidates (fun v v' hv hsurrounded => hsurrounded.offers hv)
        hoffers).mono fun prepared t ⟨hsteps, ht⟩ => ?_
      rintro _ ⟨⟩
      refine ht.imp fun v ⟨hoffers, hprepares⟩ => ⟨fun p hp => ?_, fun p hp =>
        (hprepares p hp).phase_eq, ?_⟩
      · have hoffer := hoffers p.step (hsteps ▸ List.mem_map_of_mem hp)
        exact (hprepares p hp).startable (Or.inl ⟨rfl, hoffer⟩)
      · rwa [← hsteps, List.map_map] at hnodup
    · cases prepared with
      | none => exact .pure trivial
      | some attempts =>
          exact (dispatchEach_safe attempts (ht attempts rfl)).bind fun _ _ _ =>
            dispatchedReport_safe _ _

/-! ## The approval barrier -/

/-- A barrier that answers nothing has found the step approved. -/
theorem establishApprovalBarrier_admits {ownedFutures : List OwnedFuture}
    {store : MemoryStore} {v : RunRecord} {stepId newId : String} {occurredAt : Timestamp}
    (hbase : store.record runId = some v) :
    Tx.Ensures (establishApprovalBarrier cfg ownedFutures runId stepId newId occurredAt)
      (fun exit _ => match exit with
        | .commit answer => answer = some .approvalPending
        | .leave answer => answer = none →
            ∃ step ∈ v.definition.steps, step.id = stepId ∧ v.Admitted cfg step) store [] := by
  unfold establishApprovalBarrier
  simp only [Tx.ensures_bind, Tx.ensures_read, Tx.ensures_require, Tx.ensures_lift,
    Tx.ensures_ite, Tx.ensures_pure, Tx.view_nil, MemoryStore.runs_get_of_record hbase,
    MemoryStore.definitionOf_of_record hbase, Option.some.injEq, forall_eq',
    MemoryStore.listApprovals_of_record hbase, reduceCtorEq, false_implies, imp_true_iff,
    true_and]
  intro work _ _ step hfind snapshot hsnapshot
  refine ⟨fun happroved _ => ?_, fun _ => ?_⟩
  · obtain ⟨request, hrequest, happroves⟩ := List.any_eq_true.mp happroved
    exact ⟨step, List.mem_of_find?_eq_some hfind, by simpa using List.find?_some hfind,
      Or.inr ⟨snapshot, hsnapshot, request, hrequest, of_decide_eq_true happroves⟩⟩
  · simp

theorem Shared.admitted_of_barrier {stepId newId : String} {occurredAt : Timestamp} {v : RunView}
    (hv : s.view runId = some v)
    (h : (s.inStore (establishApprovalBarrier cfg s.coordinator.ownedFutures runId stepId newId
      occurredAt)).1 = .ok none) :
    (∃ step ∈ v.definition.steps, step.id = stepId ∧ v.Admitted cfg step) ∧
      (s.inStore (establishApprovalBarrier cfg s.coordinator.ownedFutures runId stepId newId
        occurredAt)).2.view runId = some v := by
  unfold inStore at h ⊢
  cases htransact : s.store.transact (establishApprovalBarrier cfg s.coordinator.ownedFutures
      runId stepId newId occurredAt) with
  | error e => simp [htransact] at h
  | ok result =>
      obtain ⟨answer, next⟩ := result
      simp only [htransact, Except.ok.injEq] at h ⊢
      have := Tx.Ensures.transact (P := fun answer next => answer = none →
        (∃ step ∈ v.definition.steps, step.id = stepId ∧ v.Admitted cfg step) ∧ next = s.store)
        ((establishApprovalBarrier_admits (view_eq_some_iff.mp hv).1).mono
          fun exit staged hexit => by
            cases exit with
            | commit answer => exact fun _ hnone => by simp [hnone] at hexit
            | leave answer => exact fun hnone => ⟨hexit hnone, rfl⟩) htransact
      obtain ⟨hadmitted, rfl⟩ := this h
      exact ⟨hadmitted, hv⟩

theorem Shared.inFlight_eq_nil_of_any {t : Shared}
    (h : (t.coordinator.ownedFutures.any fun owned => owned.Unpersisted runId) = false) :
    t.inFlight runId = [] := by
  rw [inFlight, List.map_eq_nil_iff, List.filter_eq_nil_iff]
  intro owned howned
  simpa using List.any_eq_false.mp h owned howned

theorem handleApprovalBarrier_safe {definition : WorkflowDefinition} {step : StepDefinition}
    (hstep : step ∈ definition.steps)
    (h : s.Sees runId fun v => v.definition = definition ∧ v.stateOf step.id = some .ready) :
    (handleApprovalBarrier cfg runId definition step).Safe cfg (fun reason t => reason = none →
      t.Sees runId fun v => v.Offers cfg [step]) s := by
  -- neither the definition nor the step changes around the turn
  have hstable : ∀ v v' : RunView, v.definition = definition ∧ v.stateOf step.id = some .ready →
      v.Surrounded v' → v'.definition = definition ∧ v'.stateOf step.id = some .ready :=
    fun v v' hv hsurrounded => ⟨hsurrounded.definition.trans hv.1,
      (hsurrounded.stateOf_eq step.id).trans hv.2⟩
  unfold handleApprovalBarrier
  refine .lift_bind fun snapshot hsnapshot => ?_
  refine .operation_bind fun t₁ hrely₁ _ => ⟨trivial, fun _ work _ => ?_⟩
  split
  · exact .pure (by simp)
  refine .operation_bind fun t₂ hrely₂ _ => ⟨trivial, fun _ draining hdraining => ?_⟩
  split
  · exact .pure (by simp)
  have h₂ := (h.rely hrely₁ hstable).rely hrely₂ hstable
  -- the executor is drained
  have hdrained : t₂.inFlight runId = [] := by
    refine Shared.inFlight_eq_nil_of_any ?_
    rw [Except.ok.inj hdraining]
    exact Bool.eq_false_iff.mpr ‹_›
  have hbarred : t₂.Sees runId fun v => v.definition = definition ∧ v.Barred step.id := by
    obtain ⟨v, hv, hdefinition, hready⟩ := h₂
    exact ⟨v, hv, hdefinition, (Shared.view_eq_some_iff.mp hv).2.1.trans hdrained, hready⟩
  refine .operation_bind fun t₃ hrely₃ _ => ⟨trivial, fun _ approvals happrovals => ?_⟩
  have hbarred₃ := hbarred.rely hrely₃ fun v v' hv hsurrounded =>
    ⟨hsurrounded.definition.trans hv.1, hsurrounded.barred hv.2⟩
  -- an approval may be there already
  split
  · rename_i hany
    refine .pure fun _ => ?_
    obtain ⟨v, hv, rfl, _⟩ := hbarred₃
    refine ⟨v, hv, fun other hother => ?_⟩
    obtain rfl := List.mem_singleton.mp hother
    obtain ⟨request, hrequest, happroves⟩ := List.any_eq_true.mp hany
    rw [← Except.ok.inj happrovals,
      MemoryStore.listApprovals_of_record (Shared.view_eq_some_iff.mp hv).1] at hrequest
    exact ⟨hstep, Or.inr ⟨snapshot, hsnapshot, request, hrequest, of_decide_eq_true happroves⟩⟩
  -- if not, the barrier is established now
  · refine .operation fun t₄ hrely₄ _ => ?_
    obtain ⟨v, hv, rfl, hbarred₄⟩ := hbarred₃.rely hrely₄ fun v v' hv hsurrounded =>
      ⟨hsurrounded.definition.trans hv.1, hsurrounded.barred hv.2⟩
    refine ⟨fun w hw => ?_, fun inputs answer hanswer hnone => ?_⟩
    · obtain rfl := Option.some.inj (hv.symm.trans hw)
      exact hbarred₄
    · subst hnone
      obtain ⟨⟨other, hother, hid, hadmitted⟩, hview⟩ := Shared.admitted_of_barrier hv hanswer
      refine ⟨v, hview, fun x hx => ?_⟩
      obtain rfl := List.mem_singleton.mp hx
      obtain rfl := v.definition.eq_of_id_eq hother hstep hid
      exact ⟨hother, hadmitted⟩

/-! ## One turn -/

theorem findProtected_spec {steps : List StepDefinition} {answer : Option StepDefinition}
    (h : findProtected cfg steps = .ok answer) :
    (∀ step ∈ answer, step ∈ steps) ∧
      (answer = none → ∀ step ∈ steps, requiresApproval cfg step = .ok false) := by
  induction steps with
  | nil =>
      obtain rfl : none = answer := Except.ok.inj h
      simp
  | cons step rest ih =>
      unfold findProtected at h
      cases hrequires : requiresApproval cfg step with
      | error e => simp [hrequires, bind, Except.bind] at h
      | ok requires =>
          simp only [hrequires, bind, Except.bind] at h
          cases requires with
          | true =>
              obtain rfl : some step = answer := Except.ok.inj h
              simp
          | false =>
              obtain ⟨hmem, hnone⟩ := ih h
              exact ⟨fun other hother => List.mem_cons_of_mem _ (hmem other hother),
                fun hanswer => List.forall_mem_cons.mpr ⟨hrequires, hnone hanswer⟩⟩

theorem runForwardOnce_safe (completed : List ExecutionOutcome) :
    (runForwardOnce cfg runId completed).Safe cfg (fun _ _ => True) s := by
  unfold runForwardOnce
  refine .operation_bind fun t₁ _ ht₁ => ⟨trivial, fun _ (instant : Timestamp) hinstant => ?_⟩
  have hlatest : instant ≤ t₁.latest := by
    obtain rfl : t₁.clock = instant := Except.ok.inj hinstant
    exact ht₁.clock
  refine .operation_bind fun t₂ hrely₂ _ => ⟨hlatest.trans hrely₂.latest, fun _ _ _ => ?_⟩
  refine .operation_bind fun t₃ _ _ => ⟨trivial, fun _ _ _ => ?_⟩
  refine .operation_bind fun t₄ _ _ => ⟨trivial, fun _ loaded hloaded => ?_⟩
  obtain ⟨definition, stepRuns⟩ := loaded
  have hsees := Shared.sees_of_load hloaded
  refine .operation_bind fun t₅ hrely₅ _ => ⟨trivial, fun _ capacity _ => ?_⟩
  obtain ⟨v, hv, rfl, rfl⟩ := hsees.rely hrely₅ fun v v' hv hsurrounded =>
    ⟨hsurrounded.definition.trans hv.1, hsurrounded.stepRuns_eq.trans hv.2⟩
  have hkeyed : v.Keyed := Shared.WellFormed.keyed hv
  refine .lift_bind fun ready hready => ?_
  -- the steps on offer are distinct, and each is ready
  have hnodup := nodup_readySteps hready v.definition.ids_nodup
  have hmem (step : StepDefinition) (hstep : step ∈ ready.filter fun step =>
      stepStateIs v.stepRuns step.id [.ready]) :
      step ∈ v.definition.steps ∧ v.stateOf step.id = some .ready := by
    obtain ⟨hready', hstate⟩ := List.mem_filter.mp hstep
    exact ⟨((mem_readySteps hready).mp hready').1,
      hkeyed.stateOf_of_stepStateIs (of_decide_eq_true hstate)⟩
  have hdistinct := hnodup.sublist ((List.filter_sublist (p := fun step : StepDefinition =>
    decide (stepStateIs v.stepRuns step.id [.ready]))).map StepDefinition.id)
  refine .lift_bind fun found hfound => ?_
  obtain ⟨hprotected, hfree⟩ := findProtected_spec hfound
  -- whether one of them is protected
  cases found with
  | none =>
      exact dispatchCandidates_safe hdistinct ⟨v, hv, fun step hstep =>
        ⟨(hmem step hstep).1, Or.inl (hfree rfl step hstep)⟩⟩
  | some step =>
      obtain ⟨hstep, hstate⟩ := hmem step (hprotected step rfl)
      refine (handleApprovalBarrier_safe hstep ⟨v, hv, rfl, hstate⟩).bind fun reason t ht => ?_
      cases reason with
      | some reason => exact .pure trivial
      | none => exact dispatchCandidates_safe (by simp) (ht rfl)

/-! ## Compensation -/

/-- Without recovery work the run is quiet, unless requests are in flight. -/
theorem Shared.quiet_of_hasPersistedRecoveryWork {t : Shared}
    (h : hasPersistedRecoveryWork t.coordinator.ownedFutures t.store runId = .ok false) :
    t.Sees runId fun v => v.inFlight = [] → v.Quiet := by
  unfold hasPersistedRecoveryWork at h
  cases hrun : t.store.runs.get runId with
  | none => simp [hrun] at h
  | some run =>
      cases hdefinition : t.store.definitionOf run with
      | none => simp [hrun, hdefinition] at h
      | some definition =>
          simp only [hrun, hdefinition] at h
          have hrecord : t.store.record runId = some (t.store.recordOf runId run definition) := by
            simp [MemoryStore.record, hrun, hdefinition]
          exact ⟨_, view_of_record hrecord, fun hdrained =>
            quiet_of_no_recovery_work hrecord hdrained h⟩

theorem runCompensationOnce_safe (completed : List ExecutionOutcome) :
    (runCompensationOnce cfg runId completed).Safe cfg (fun _ _ => True) s := by
  unfold runCompensationOnce
  refine .operation_bind fun t₁ _ _ => ⟨trivial, fun _ work hwork => ?_⟩
  split
  · exact .pure trivial
  obtain rfl : work = false := Bool.eq_false_iff.mpr ‹_›
  have hquiet := Shared.quiet_of_hasPersistedRecoveryWork hwork
  refine .operation_bind fun t₂ hrely₂ _ => ⟨trivial, fun _ draining hdraining => ?_⟩
  split
  · exact .pure trivial
  -- nothing is in flight, and nothing is left to recover
  have hdrained : t₂.inFlight runId = [] := by
    refine Shared.inFlight_eq_nil_of_any ?_
    rw [Except.ok.inj hdraining]
    exact Bool.eq_false_iff.mpr ‹_›
  have hidle : t₂.Sees runId fun v => v.Quiet ∧ v.inFlight = [] := by
    obtain ⟨v, hv, hquiet⟩ := hquiet.rely hrely₂ fun v v' hv hsurrounded hnone =>
      hsurrounded.quiet (hv (hsurrounded.inFlight.symm.trans hnone))
    have hnone := (Shared.view_eq_some_iff.mp hv).2.1.trans hdrained
    exact ⟨v, hv, hquiet hnone, hnone⟩
  have hstable : ∀ v v' : RunView, v.Quiet ∧ v.inFlight = [] → v.Surrounded v' →
      v'.Quiet ∧ v'.inFlight = [] := fun v v' hv hsurrounded =>
    ⟨hsurrounded.quiet hv.1, hsurrounded.inFlight.trans hv.2⟩
  refine .operation_bind fun t₃ hrely₃ _ => ⟨trivial, fun _ loaded hloaded => ?_⟩
  obtain ⟨definition, stepRuns⟩ := loaded
  have hsees := (hidle.rely hrely₃ hstable).and (Shared.sees_of_load hloaded)
  refine .operation_bind fun t₄ hrely₄ _ => ⟨trivial, fun _ attempts hattempts => ?_⟩
  obtain ⟨v, hv, hidle, rfl, rfl⟩ := hsees.rely hrely₄ fun v v' hv hsurrounded =>
    ⟨hstable v v' hv.1 hsurrounded, hsurrounded.definition.trans hv.2.1,
      hsurrounded.stepRuns_eq.trans hv.2.2⟩
  obtain rfl : v.attempts.rows = attempts :=
    (MemoryStore.listAttempts_of_record (Shared.view_eq_some_iff.mp hv).1).symm.trans
      (Except.ok.inj hattempts)
  refine .lift_bind fun compensable _ => .lift_bind fun pending hpending => ?_
  -- the pending compensations are those of a run that is settled
  have hsettled : Shared.Sees runId (fun v => v.Settled pending) _ :=
    ⟨v, hv, hidle.1, hidle.2, hpending⟩
  have hkept : ∀ v v' : RunView, v.Settled pending → v.Surrounded v' → v'.Settled pending :=
    fun v v' hv hsurrounded => hsurrounded.settled hv
  split
  · exact .pure trivial
  cases pending with
  | nil =>
      -- none is left, and the run is done
      refine .operation_bind fun t₅ hrely₅ _ => ⟨fun w hw => ?_, fun _ _ _ => .pure trivial⟩
      exact (hsettled.rely hrely₅ hkept).of_view hw
  | cons step rest =>
      refine .operation_bind fun t₅ hrely₅ _ => ⟨trivial, fun _ capacity _ => ?_⟩
      split
      -- the first one is prepared and started
      · exact .pure trivial
      refine (prepare_safe hkept (hsettled.rely hrely₅ hkept)).bind fun prepared t ht => ?_
      refine .operation_bind fun t₆ hrely₆ ht₆ => ?_
      obtain ⟨v, hv, hsettled, hprepares⟩ := ht.rely hrely₆ fun v v' hv hsurrounded =>
        ⟨hkept v v' hv.1 hsurrounded, hsurrounded.prepares hv.2⟩
      have hstartable : v.Startable cfg prepared :=
        hprepares.startable (Or.inr ⟨rfl, rest, hsettled⟩)
      have hrunId : prepared.attempt.runId = runId := hprepares.next.runId.trans
        (MemoryStore.runId_of_record (Shared.view_eq_some_iff.mp hv).1)
      refine ⟨fun w hw => ?_, fun inputs submitted hanswer => ?_⟩
      · obtain rfl := Option.some.inj (hv.symm.trans (hrunId ▸ hw))
        exact hstartable
      -- a refused submission is recorded, as for forward attempts
      cases submitted
      case true => exact dispatchedReport_safe _ _
      have hunsubmitted := Shared.unsubmitted_of_dispatch ht₆ (hrunId ▸ hv) hstartable hanswer
      refine .operation_bind fun t₇ hrely₇ _ => ⟨fun w hw => ?_, fun _ _ _ => .pure trivial⟩
      exact (hunsubmitted.rely hrely₇ fun v v' hv hsurrounded =>
        hsurrounded.unsubmitted hv).of_view (hstartable.runId ▸ hw)

theorem runSelected_safe {selectedRun : Option WorkflowRun} {completed : List ExecutionOutcome}
    {collectionFailed : Bool} :
    (runSelected cfg runId selectedRun completed collectionFailed).Safe cfg
      (fun _ _ => True) s := by
  unfold runSelected
  cases selectedRun with
  | none =>
      dsimp only
      split
      · exact .pure trivial
      · exact runForwardOnce_safe completed
  | some run =>
      dsimp only
      split
      · exact .pure trivial
      split
      case isTrue hwaiting =>
        refine .operation_bind fun _ _ _ => ⟨trivial, fun _ work _ => ?_⟩
        split
        · exact .pure trivial
        -- a waiting run is neither compensating nor going forward
        · rw [if_neg (by simp [hwaiting]), if_pos (by simp [hwaiting, RunState.Forward])]
          exact .pure trivial
      case isFalse =>
        split
        · split
          · exact .pure trivial
          · exact runCompensationOnce_safe completed
        split
        · exact .pure trivial
        split
        · exact .pure trivial
        refine .operation_bind fun _ _ _ => ⟨trivial, fun _ work _ => ?_⟩
        split
        · exact .operation_bind fun _ _ _ => ⟨trivial, fun _ unknown _ => .pure trivial⟩
        · exact runForwardOnce_safe completed

theorem runOnce_safe : (runOnce cfg).Safe cfg (fun _ _ => True) s := by
  refine .operation_bind fun _ _ _ => ⟨trivial, fun _ closed _ => ?_⟩
  split
  · exact .pure trivial
  refine collectOutcomes_safe.bind fun _ _ _ => ?_
  refine .operation_bind fun _ _ _ => ⟨trivial, fun _ selected _ => ?_⟩
  split
  · exact .pure trivial
  · exact .operation_bind fun _ _ _ => ⟨trivial, fun _ run _ => runSelected_safe⟩

/-! ## Closing -/

theorem closeEach_safe (ids : List ℕ) :
    ∀ {s : Shared}, (closeEach ids).Safe cfg (fun _ _ => True) s := by
  induction ids with
  | nil => intro s; exact .pure trivial
  | cons id rest ih => intro s; exact .operation_bind fun _ _ _ => ⟨trivial, fun _ _ _ => ih⟩

theorem collectOrRaise_safe : collectOrRaise.Safe cfg (fun _ _ => True) s := by
  refine collectOutcomes_safe.bind fun result _ _ => ?_
  obtain ⟨_, persistenceFailed⟩ := result
  cases persistenceFailed
  · exact .pure trivial
  · trivial

theorem close_safe (wait : Bool) : (close wait).Safe cfg (fun _ _ => True) s := by
  have marked {t : Shared} : Activity.markClosed.Safe cfg (fun _ _ => True) t :=
    .operation fun _ _ _ => ⟨trivial, fun _ _ _ => trivial⟩
  refine .operation_bind fun _ _ _ => ⟨trivial, fun _ closed _ => ?_⟩
  split
  · exact .pure trivial
  refine collectOrRaise_safe.bind fun _ _ _ => ?_
  split
  · refine .operation_bind fun _ _ _ => ⟨trivial, fun _ _ _ => ?_⟩
    exact collectOrRaise_safe.bind fun _ _ _ => marked
  · refine .operation_bind fun _ _ _ => ⟨trivial, fun _ ids _ => ?_⟩
    exact (closeEach_safe ids).bind fun _ _ _ => marked

/-! ## Recovery -/

/-- The unresolved attempts of distinct steps, still to be decided. -/
structure RunView.Unresolved (v : RunView) (pending : List (String × StepAttempt)) : Prop where
  state : pending ≠ [] → v.run.state ≠ .failed
  unresolved : ∀ entry ∈ pending, ∀ row, v.steps entry.1 = some row →
    unresolvedAmong row (v.stepAttempts entry.1) = some entry.2
  distinct : (pending.map Prod.fst).Nodup

theorem RunView.Surrounded.unresolved {v v' : RunView} (h : v.Surrounded v')
    {pending : List (String × StepAttempt)} (hv : v.Unresolved pending) :
    v'.Unresolved pending where
  state hpending hfailed := hv.state hpending (h.failed hfailed)
  unresolved entry hentry row hrow := by
    rw [h.stepAttempts_eq]
    exact hv.unresolved entry hentry row (h.steps ▸ hrow)
  distinct := hv.distinct

theorem RunView.Unresolved.due {v : RunView} {stepId : String} {attempt : StepAttempt}
    {rest : List (String × StepAttempt)} (h : v.Unresolved ((stepId, attempt) :: rest))
    (hkeyed : v.Keyed) : v.Due stepId attempt where
  state := h.state (by simp)
  unresolved row found hrow hfound hattemptNo hphase := by
    have hunresolved := h.unresolved _ List.mem_cons_self row hrow
    obtain ⟨hmem, hid⟩ := RunRecord.mem_stepAttempts.mp (unresolvedAmong_spec hunresolved).1
    obtain ⟨hmem', hid'⟩ := RunRecord.mem_stepAttempts.mp hfound
    rw [hkeyed.attempt_eq hmem' hmem (hid'.trans hid.symm) hattemptNo hphase]
    exact hunresolved

/-- What a recovery leaves alone. -/
structure RunView.Recovers (v : RunView) (stepId : String) (v' : RunView) : Prop where
  state : v.run.state ≠ .failed → v'.run.state ≠ .failed
  steps : ∀ id, id ≠ stepId → v'.steps id = v.steps id
  attempts : ∀ id, id ≠ stepId → v'.stepAttempts id = v.stepAttempts id

theorem RunMove.recovers {v v' : RunView} {runId stepId : String} {expected : StepAttempt}
    {answers : ProbeAnswers} {instant : Timestamp}
    (h : RunMove cfg v (.recovery runId stepId expected answers instant) v') :
    v.Recovers stepId v' := by
  have others {row attempt} (hunresolved : unresolvedAmong row (v.stepAttempts stepId) =
      some attempt) : attempt.stepId = stepId :=
    (RunRecord.mem_stepAttempts.mp (unresolvedAmong_spec hunresolved).1).2
  cases h with
  | recoveredApplied _ _ hunresolved _ _ _ _ hsettles =>
      refine ⟨fun hstate => ?_, fun id hid => Function.update_of_ne hid _ _,
        fun id hid => RunRecord.stepAttempts_put_ne rfl ((others hunresolved).symm ▸ hid.symm)⟩
      cases hsettles with
      | unaffected => exact hstate
      | _ => exact fun hfailed => by simp at hfailed
  | recoveredNotApplied _ _ hunresolved =>
      exact ⟨id, fun id hid => Function.update_of_ne hid _ _,
        fun id hid => RunRecord.stepAttempts_put_ne rfl ((others hunresolved).symm ▸ hid.symm)⟩
  | recoveredManual _ _ hunresolved _ _ hrun =>
      refine ⟨fun _ hfailed => ?_, fun id hid => Function.update_of_ne hid _ _,
        fun id hid => RunRecord.stepAttempts_put_ne rfl ((others hunresolved).symm ▸ hid.symm)⟩
      rcases hrun with rfl | rfl <;> simp at hfailed

/-- Recovering one step leaves the others to be recovered. -/
theorem RunView.Unresolved.recovered {v v' : RunView} {stepId : String} {attempt : StepAttempt}
    {rest : List (String × StepAttempt)} (h : v.Unresolved ((stepId, attempt) :: rest))
    (hrecovers : v.Recovers stepId v') : v'.Unresolved rest where
  state _ := hrecovers.state (h.state (by simp))
  unresolved entry hentry row hrow := by
    have hid : entry.1 ≠ stepId := fun hid =>
      (List.nodup_cons.mp h.distinct).1 (List.mem_map.mpr ⟨entry, hentry, hid⟩)
    rw [hrecovers.steps _ hid] at hrow
    rw [hrecovers.attempts _ hid]
    exact h.unresolved entry (List.mem_cons_of_mem _ hentry) row hrow
  distinct := (List.nodup_cons.mp h.distinct).2

theorem recoverEach_safe (pending : List (String × StepAttempt)) : ∀ {s : Shared},
    s.Sees runId (fun v => v.Unresolved pending) →
      (recoverEach runId pending).Safe cfg (fun _ _ => True) s := by
  induction pending with
  | nil => intro s _; exact .pure trivial
  | cons entry rest ih =>
      obtain ⟨stepId, attempt⟩ := entry
      intro s h
      refine .operation_bind fun t hrely ht => ?_
      have hunresolved := h.rely hrely fun v v' hv hsurrounded => hsurrounded.unresolved hv
      have henabled : (Op.recoverAttempt runId stepId attempt).Enabled cfg t := fun v hv =>
        (hunresolved.of_view hv).due (Shared.WellFormed.keyed hv)
      refine ⟨henabled, fun inputs _ _ => ih ?_⟩
      obtain ⟨v, hv, hpending⟩ := hunresolved
      obtain ⟨v', hv', rfl | hmove⟩ := (exec_advances ht _ henabled inputs).view hv
      · refine ⟨v', hv', fun _ => hpending.state (by simp), fun other hother =>
          hpending.unresolved other (List.mem_cons_of_mem _ hother),
          (List.nodup_cons.mp hpending.distinct).2⟩
      · exact ⟨v', hv', hpending.recovered hmove.recovers⟩

/-- What recovery has listed is unresolved. -/
theorem Shared.unresolved_of_pendingRecovery {t : Shared} {pending : List (String × StepAttempt)}
    (h : pendingRecovery t.store runId = .ok (some pending)) :
    t.Sees runId fun v => v.Unresolved pending := by
  unfold pendingRecovery at h
  split at h
  case h_1 => simp at h
  case h_2 run hrun =>
    split at h
    case isTrue => simp at h
    case isFalse hterminal =>
      split at h
      case h_1 => simp at h
      case h_2 definition hdefinition =>
        obtain ⟨listed, hlisted, hpending⟩ := Except.map_eq_ok_iff.mp h
        obtain rfl := Option.some.inj hpending
        have hfilter := (unresolvedAttempts_eq_ok_iff.mp hlisted).2
        have hrecord : t.store.record runId = some (t.store.recordOf runId run definition) := by
          simp [MemoryStore.record, hrun, hdefinition]
        refine ⟨_, view_of_record hrecord, fun _ hfailed => hterminal ?_,
          fun entry hentry row hrow => ?_, ?_⟩
        · rw [show run.state = .failed from hfailed]
          decide
        · obtain ⟨step, _, hentry⟩ := List.mem_filterMap.mp (hfilter ▸ hentry)
          obtain ⟨row', hrow', hentry⟩ := Option.bind_eq_some_iff.mp hentry
          obtain ⟨attempt, hunresolved, rfl⟩ := Option.map_eq_some_iff.mp hentry
          obtain rfl : row' = row := Option.some.inj (hrow'.symm.trans hrow)
          rwa [MemoryStore.listStepAttempts_of_record hrecord] at hunresolved
        · exact definition.ids_nodup.sublist (unresolvedAttempts_sublist hlisted)

theorem recoverRun_safe : (recoverRun runId).Safe cfg (fun _ _ => True) s := by
  refine .operation_bind fun t _ _ => ⟨trivial, fun _ listed hlisted => ?_⟩
  cases listed with
  | none => exact .pure trivial
  | some pending =>
      exact (recoverEach_safe pending (Shared.unresolved_of_pendingRecovery hlisted)).bind
        fun _ _ _ => .pure trivial

theorem recoverRuns_safe (runIds : List String) :
    ∀ {s : Shared}, (recoverRuns runIds).Safe cfg (fun _ _ => True) s := by
  induction runIds with
  | nil => intro s; exact .pure trivial
  | cons runId rest ih =>
      intro s
      exact recoverRun_safe.bind fun _ _ _ => ih.bind fun _ _ _ => .pure trivial

theorem recoverNonterminalRuns_safe :
    recoverNonterminalRuns.Safe cfg (fun _ _ => True) s :=
  .operation_bind fun _ _ _ => ⟨trivial, fun _ runIds _ => recoverRuns_safe runIds⟩

end ChangePilot
