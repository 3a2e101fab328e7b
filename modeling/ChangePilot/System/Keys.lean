import ChangePilot.System.Runs
import ChangePilot.System.Threads

/-!
# Idempotency keys

A request that a call of the process hands to the executor carries the key of its
operation: run, step, phase and the tool that the run's definition names for it.  The
attempts that are stored keep the keys they were started with, and the definition of a
run never changes.
-/

namespace ChangePilot

/-! ## The key of an operation -/

/-- What the key of an operation is made of. -/
structure OperationIdentity where
  runId : String
  stepId : String
  phase : ToolExecutionPhase
  tool : ToolReference
  deriving DecidableEq, Repr

def OperationIdentity.key (runtime : Runtime) (operation : OperationIdentity) :
    Except Error String :=
  logicalIdempotencyKey runtime operation.runId operation.stepId operation.tool.name
    operation.tool.version operation.phase

/-- The prepared attempt and its context carry the key of the tool of its step. -/
def PreparedAttempt.WellKeyed (cfg : Deployment) (prepared : PreparedAttempt) : Prop :=
  prepared.context.logicalIdempotencyKey = prepared.attempt.idempotencyKey ∧
    ∃ tool, toolReferenceOf prepared.step prepared.attempt.phase = some tool ∧
      OperationIdentity.key cfg.runtime ⟨prepared.attempt.runId, prepared.step.id,
        prepared.attempt.phase, tool⟩ = .ok prepared.attempt.idempotencyKey

theorem wellKeyed_of_prepareAttempt {cfg : Deployment} {runId : String} {step : StepDefinition}
    {phase : ToolExecutionPhase} {attempts : List StepAttempt} {startedAt : Timestamp}
    {attemptId : String} {prepared : PreparedAttempt}
    (h : prepareAttempt cfg runId step phase attempts startedAt attemptId = .ok prepared) :
    prepared.WellKeyed cfg := by
  unfold prepareAttempt at h
  split at h
  case h_2 => cases h
  case h_1 reference hreference =>
    simp only [Except.bind_eq_ok_iff, Except.pure_eq_ok_iff] at h
    obtain ⟨_, _, _, _, key, hkey, _, _, context, hcontext, rfl⟩ := h
    obtain rfl := ToolExecutionContext.new_eq_ok hcontext
    exact ⟨rfl, reference, hreference, hkey⟩

def Op.WellKeyed (cfg : Deployment) : Op → Prop
  | .dispatch prepared => prepared.WellKeyed cfg
  | _ => True

/-! ## Calls -/

/-- What the call dispatches carries the key of its operation, whatever the state in
which its operations are performed, and what it returns satisfies `P`. -/
def Activity.Keyed {α : Type} (cfg : Deployment) (P : α → Prop) (activity : Activity α) : Prop :=
  ∀ s, Routine.Safe (exec cfg) (fun _ _ => True) (fun _ => True) (fun op _ => op.WellKeyed cfg)
    (fun a _ => P a) activity s

namespace Activity.Keyed

variable {cfg : Deployment} {α β : Type} {P : α → Prop} {Q : β → Prop}

theorem pure {a : α} (h : P a) : Activity.Keyed cfg P (Pure.pure a) := fun _ => h

theorem throw {e : Error} : Activity.Keyed cfg P (throw e) := fun _ => trivial

theorem bind {activity : Activity α} {f : α → Activity β} (h : activity.Keyed cfg P)
    (hf : ∀ a, P a → (f a).Keyed cfg Q) : (activity >>= f).Keyed cfg Q :=
  fun s => Routine.Safe.bind (h s) fun a t ha => hf a ha t

theorem operation {op : Op} (hop : op.WellKeyed cfg) :
    (Activity.operation op).Keyed cfg fun _ => True :=
  fun _ => Routine.Safe.perform fun _ _ _ => ⟨hop, fun _ _ _ => trivial⟩

/-- An operation that dispatches nothing, and what comes after it. -/
theorem first {op : Op} {f : op.Ans → Activity β} (hop : op.WellKeyed cfg)
    (hf : ∀ a, (f a).Keyed cfg Q) : (Activity.operation op >>= f).Keyed cfg Q :=
  (operation hop).bind fun a _ => hf a

theorem lift {x : Except Error α} (h : ∀ a, x = .ok a → P a) :
    (Activity.lift x).Keyed cfg P := by
  cases x with
  | error e => exact throw
  | ok a => exact pure (h a rfl)

theorem lift_bind {x : Except Error α} {f : α → Activity β} (hf : ∀ a, (f a).Keyed cfg Q) :
    (Activity.lift x >>= f).Keyed cfg Q :=
  (lift (P := fun _ => True) fun _ _ => trivial).bind fun a _ => hf a

end Activity.Keyed

/-- A call that only performs operations other than dispatches. -/
theorem Activity.Keeps.keyed {cfg : Deployment} {α : Type} {activity : Activity α}
    {may : Option Performed → Op → Prop} (h : activity.Keeps may)
    (hmay : ∀ last op, may last op → op.WellKeyed cfg) : activity.Keyed cfg fun _ => True := by
  have hprog : ∀ (p : Prog Op (fun op => Except Error op.Ans) (Except Error α)) {last} {s},
      Prog.Paced may last p → Prog.Safe (exec cfg) (fun _ _ => True) (fun _ => True)
        (fun op _ => op.WellKeyed cfg) (Routine.Ensures fun _ _ => True) p s := by
    intro p
    induction p with
    | ret a =>
        intro last s _
        cases a <;> trivial
    | call op k ih =>
        intro last s hpaced t _ _
        exact ⟨hmay last op hpaced.1, fun i => ih _ (hpaced.2 _)⟩
  exact fun s => hprog _ (h none)

section

variable {cfg : Deployment} {runId : String}

theorem collectEach_keyed (instant : Timestamp) (ids : List ℕ) :
    (collectEach instant ids).Keyed cfg fun _ => True := by
  induction ids with
  | nil => exact .pure trivial
  | cons id rest ih =>
      refine .first trivial fun result => ih.bind fun _ _ => ?_
      cases result <;> exact .pure trivial

theorem collectOutcomes_keyed : collectOutcomes.Keyed cfg fun _ => True :=
  .first trivial fun instant => .first trivial fun ids => collectEach_keyed instant ids

theorem dispatchedReport_keyed (completed : List ExecutionOutcome) (dispatched : List String) :
    (dispatchedReport runId completed dispatched).Keyed cfg fun _ => True :=
  collectOutcomes_keyed.bind fun _ _ => .pure trivial

theorem prepare_keyed (step : StepDefinition) (phase : ToolExecutionPhase) :
    (prepare cfg runId step phase).Keyed cfg (PreparedAttempt.WellKeyed cfg) :=
  .first trivial fun _ => .first trivial fun _ => .first trivial fun _ =>
    .lift fun _ => wellKeyed_of_prepareAttempt

theorem prepareEach_keyed (steps : List StepDefinition) :
    (prepareEach cfg runId steps).Keyed cfg
      fun attempts => ∀ prepared ∈ attempts, prepared.WellKeyed cfg := by
  induction steps with
  | nil => exact .pure fun _ h => absurd h List.not_mem_nil
  | cons step rest ih =>
      refine (prepare_keyed step .forward).bind fun prepared hprepared => ?_
      exact ih.bind fun others hothers => .pure (List.forall_mem_cons.mpr ⟨hprepared, hothers⟩)

theorem dispatchEach_keyed {attempts : List PreparedAttempt}
    (h : ∀ prepared ∈ attempts, prepared.WellKeyed cfg) :
    (dispatchEach runId attempts).Keyed cfg fun _ => True := by
  induction attempts with
  | nil => exact .pure trivial
  | cons prepared rest ih =>
      obtain ⟨hprepared, hrest⟩ := List.forall_mem_cons.mp h
      refine .first hprepared fun submits => ?_
      cases submits with
      | true => exact (ih hrest).bind fun _ _ => .pure trivial
      | false =>
          refine .first trivial fun _ => .first trivial fun run => ?_
          cases isTerminal run
          · exact (ih hrest).bind fun _ _ => .pure trivial
          · exact .pure trivial

theorem handleApprovalBarrier_keyed (definition : WorkflowDefinition) (step : StepDefinition) :
    (handleApprovalBarrier cfg runId definition step).Keyed cfg fun _ => True := by
  refine .lift_bind fun snapshot => .first trivial fun work => ?_
  split
  · exact .pure trivial
  refine .first trivial fun draining => ?_
  split
  · exact .pure trivial
  refine .first trivial fun approvals => ?_
  split
  · exact .pure trivial
  · exact .operation trivial

theorem runCompensationOnce_keyed (completed : List ExecutionOutcome) :
    (runCompensationOnce cfg runId completed).Keyed cfg fun _ => True := by
  refine .first trivial fun work => ?_
  split
  · exact .pure trivial
  refine .first trivial fun draining => ?_
  split
  · exact .pure trivial
  refine .first trivial fun loaded => .first trivial fun attempts =>
    .lift_bind fun compensable => .lift_bind fun pending => ?_
  split
  · exact .pure trivial
  cases pending with
  | nil => exact .first trivial fun _ => .pure trivial
  | cons step rest =>
      refine .first trivial fun capacity => ?_
      split
      · exact .pure trivial
      refine (prepare_keyed step .compensation).bind fun prepared hprepared => ?_
      refine .first hprepared fun submits => ?_
      cases submits with
      | true => exact dispatchedReport_keyed _ _
      | false => exact .first trivial fun _ => .pure trivial

theorem dispatchCandidates_keyed (completed : List ExecutionOutcome) (stepRuns : List StepRun)
    (capacity : ℕ) (readyCandidates : List StepDefinition) :
    (dispatchCandidates cfg runId completed stepRuns capacity readyCandidates).Keyed cfg
      fun _ => True := by
  simp only [dispatchCandidates]
  split
  · exact .first trivial fun _ => .pure trivial
  have hprepared : (tryCatch (some <$> prepareEach cfg runId (readyCandidates.take capacity))
      fun _ => pure none : Activity _).Keyed cfg fun attempts =>
        ∀ all, attempts = some all → ∀ prepared ∈ all, prepared.WellKeyed cfg := by
    intro s
    refine Routine.Safe.tryCatch (Routine.Safe.map ?_) fun _ _ =>
      Routine.Safe.pure fun _ h => by cases h
    refine Routine.Safe.mono (fun attempts _ h all hall => ?_) (prepareEach_keyed _ s)
    obtain rfl := Option.some.inj hall
    exact h
  refine hprepared.bind fun attempts hattempts => ?_
  cases attempts with
  | none => exact .pure trivial
  | some attempts =>
      exact (dispatchEach_keyed (hattempts attempts rfl)).bind fun _ _ =>
        dispatchedReport_keyed _ _

theorem runForwardOnce_keyed (completed : List ExecutionOutcome) :
    (runForwardOnce cfg runId completed).Keyed cfg fun _ => True := by
  refine .first trivial fun instant => .first trivial fun _ => .first trivial fun _ =>
    .first trivial fun loaded => .first trivial fun capacity => .lift_bind fun ready =>
      .lift_bind fun protectedStep => ?_
  cases protectedStep with
  | none => exact dispatchCandidates_keyed _ _ _ _
  | some step =>
      refine (handleApprovalBarrier_keyed _ step).bind fun reason _ => ?_
      cases reason with
      | some reason => exact .pure trivial
      | none => exact dispatchCandidates_keyed _ _ _ _

theorem runSelected_keyed (selectedRun : Option WorkflowRun) (completed : List ExecutionOutcome)
    (collectionFailed : Bool) :
    (runSelected cfg runId selectedRun completed collectionFailed).Keyed cfg fun _ => True := by
  -- what a turn does once nothing keeps it from going on
  have afterwards (run : WorkflowRun) : Activity.Keyed cfg (fun _ => True) (do
      if run.state = .compensating then
        if collectionFailed then return blocked runId completed .internalConsistency
        runCompensationOnce cfg runId completed
      else if ¬ run.state.Forward then return blocked runId completed .runNotForward
      else if collectionFailed then return blocked runId completed .internalConsistency
      else if ← Activity.hasPersistedRecoveryWork runId then
        let locallyUnknown ← Activity.isLocallyUnknown runId
        return blocked runId completed
          (if locallyUnknown then .resultUnknown else .approvalRecoveryRequired)
      else runForwardOnce cfg runId completed) := by
    split
    · split
      · exact .pure trivial
      · exact runCompensationOnce_keyed _
    split
    · exact .pure trivial
    split
    · exact .pure trivial
    refine .first trivial fun work => ?_
    split
    · exact .first trivial fun _ => .pure trivial
    · exact runForwardOnce_keyed _
  cases selectedRun with
  | none =>
      simp only [runSelected]
      split
      · exact .pure trivial
      · exact runForwardOnce_keyed _
  | some run =>
      simp only [runSelected]
      split
      · exact .pure trivial
      split
      · refine .first trivial fun work => ?_
        split
        · exact .pure trivial
        · exact afterwards run
      · exact afterwards run

theorem runOnce_keyed (cfg : Deployment) : (runOnce cfg).Keyed cfg fun _ => True := by
  refine .first trivial fun closed => ?_
  split
  · exact .pure trivial
  refine collectOutcomes_keyed.bind fun collected _ => .first trivial fun selected => ?_
  cases selected with
  | none => exact .pure trivial
  | some runId => exact .first trivial fun run => runSelected_keyed run _ _

theorem collectOrRaise_keyed : collectOrRaise.Keyed cfg fun _ => True := by
  refine collectOutcomes_keyed.bind fun collected _ => ?_
  obtain ⟨_, persistenceFailed⟩ := collected
  cases persistenceFailed
  · exact .pure trivial
  · exact .throw

theorem closeEach_keyed (ids : List ℕ) : (closeEach ids).Keyed cfg fun _ => True := by
  induction ids with
  | nil => exact .pure trivial
  | cons id rest ih => exact .first trivial fun _ => ih

theorem close_keyed (cfg : Deployment) (wait : Bool) : (close wait).Keyed cfg fun _ => True := by
  refine .first trivial fun closed => ?_
  split
  · exact .pure trivial
  refine collectOrRaise_keyed.bind fun _ _ => ?_
  split
  · refine .first trivial fun _ => collectOrRaise_keyed.bind fun _ _ => .operation trivial
  · refine .first trivial fun ids => (closeEach_keyed ids).bind fun _ _ => .operation trivial

theorem recover_keyed (cfg : Deployment) : recoverNonterminalRuns.Keyed cfg fun _ => True := by
  refine recoverNonterminalRuns_keeps.keyed fun last op hop => ?_
  cases op with
  | dispatch => exact hop.elim
  | _ => trivial

end

/-! ## Requests in the executor's hands -/

namespace Shared

/-- What the executor has been handed. -/
def contexts (s : Shared) : List ToolExecutionContext :=
  s.coordinator.ownedFutures.map OwnedFuture.context

variable {cfg : Deployment} {s : Shared}

theorem contexts_inStore {α : Type} (body : UowM (Exit α)) :
    (s.inStore body).2.contexts = s.contexts := by
  unfold inStore
  split <;> rfl

theorem context_mem {owned : OwnedFuture} (h : owned ∈ s.coordinator.ownedFutures) :
    owned.context ∈ s.contexts := List.mem_map_of_mem h

theorem contexts_dropOwned (id : ℕ) : (s.dropOwned id).contexts ⊆ s.contexts := by
  intro context hcontext
  obtain ⟨owned, howned, rfl⟩ := List.mem_map.mp hcontext
  exact context_mem (List.mem_filter.mp howned).1

theorem contexts_updateOwned (id : ℕ) {f : OwnedFuture → OwnedFuture}
    (hf : ∀ owned ∈ s.coordinator.ownedFutures, owned.id = id →
      (f owned).context ∈ s.contexts) : (s.updateOwned id f).contexts ⊆ s.contexts := by
  intro context hcontext
  obtain ⟨_, hmem, rfl⟩ := List.mem_map.mp hcontext
  obtain ⟨owned, howned, rfl⟩ := List.mem_map.mp hmem
  split
  case isTrue hid => exact hf owned howned hid
  case isFalse => exact context_mem howned

theorem contexts_settle (owned : OwnedFuture) : (s.settle owned).contexts ⊆ s.contexts := by
  unfold settle
  split
  · exact contexts_dropOwned _
  · exact contexts_updateOwned _ fun other hother _ => @context_mem s other hother

theorem contexts_recordOutcome (outcome : ExecutionOutcome) (paths : List (List String)) :
    (s.recordOutcome cfg outcome paths).2.contexts = s.contexts := by
  unfold recordOutcome
  split
  · rfl
  · unfold rememberUnknown
    split <;> rfl

theorem contexts_collectFuture (id : ℕ) (instant : Timestamp) :
    (s.collectFuture cfg id instant).2.contexts ⊆ s.contexts := by
  unfold collectFuture
  split
  · exact List.Subset.refl _
  split
  · split
    · exact contexts_dropOwned id
    · exact List.Subset.refl _
  split
  · exact List.Subset.refl _
  case h_2 owned _ _ _ outcome _ =>
    have hrecorded := @contexts_recordOutcome cfg s outcome owned.sensitivePaths
    split
    case h_1 heq =>
      rw [heq] at hrecorded
      exact fun context hcontext => hrecorded ▸ hcontext
    case h_2 heq =>
      rw [heq] at hrecorded
      exact fun context hcontext => hrecorded ▸ contexts_settle owned hcontext

theorem contexts_closeFuture (id : ℕ) (cancelSucceeds : Bool) :
    (s.closeFuture cfg id cancelSucceeds).2.contexts ⊆ s.contexts := by
  unfold closeFuture
  split
  · exact List.Subset.refl _
  case h_2 owned howned =>
    split
    · exact List.Subset.refl _
    have hclosing : (closingOutcome owned cancelSucceeds).1.context = owned.context := by
      unfold closingOutcome
      split
      · rfl
      · split <;> rfl
    have hupdated : (s.updateOwned id fun _ => (closingOutcome owned cancelSucceeds).1).contexts ⊆
        s.contexts := by
      refine contexts_updateOwned id fun _ _ _ => ?_
      rw [hclosing]
      exact context_mem (List.mem_of_find?_eq_some howned)
    have hrecorded := @contexts_recordOutcome cfg
      (s.updateOwned id fun _ => (closingOutcome owned cancelSucceeds).1)
      (closingOutcome owned cancelSucceeds).2 owned.sensitivePaths
    simp only
    split
    case h_1 heq =>
      rw [heq] at hrecorded
      exact fun context hcontext => hupdated (hrecorded ▸ hcontext)
    case h_2 heq =>
      rw [heq] at hrecorded
      exact fun context hcontext => hupdated (hrecorded ▸ contexts_settle _ hcontext)

/-- A dispatch that succeeds finds the run. -/
theorem isSome_of_dispatch {attempt : StepAttempt} {u : Unit}
    (h : (s.inStore (commitAttemptStarted attempt)).1 = .ok u) :
    (s.store.runs.get attempt.runId).isSome := by
  unfold inStore at h
  split at h
  · cases h
  case h_2 hrun =>
    have hfinds : Tx.Ensures (commitAttemptStarted attempt)
        (fun _ _ => (s.store.runs.get attempt.runId).isSome) s.store [] := by
      rw [commitAttemptStarted, UowM.getRun, Tx.ensures_bind, Tx.ensures_read, Tx.ensures_bind,
        Tx.ensures_require]
      intro run hget _ _ _
      exact Option.isSome_of_eq_some hget
    refine Tx.Ensures.transact (P := fun _ _ => (s.store.runs.get attempt.runId).isSome)
      (hfinds.mono fun exit staged hsome => ?_) hrun
    cases exit with
    | commit _ => exact fun _ => hsome
    | leave _ => exact hsome

/-- An operation hands the executor nothing, or the request that it dispatches. -/
theorem contexts_exec (op : Op) (inputs : Inputs) {context : ToolExecutionContext}
    (h : context ∈ (exec cfg op inputs s).2.contexts) :
    context ∈ s.contexts ∨ ∃ prepared, op = .dispatch prepared ∧ context = prepared.context ∧
      (s.store.runs.get prepared.attempt.runId).isSome := by
  cases op with
  | collectFuture id instant => exact .inl (contexts_collectFuture id instant h)
  | closeFuture id => exact .inl (contexts_closeFuture id inputs.cancelSucceeds h)
  -- waiting changes what is known of the futures, but not their requests
  | awaitFutures =>
      obtain ⟨_, hmem, rfl⟩ := List.mem_map.mp h
      obtain ⟨owned, howned, rfl⟩ := List.mem_map.mp hmem
      refine .inl ?_
      split
      · exact context_mem howned
      · exact @context_mem s owned howned
  | promoteDueRetries | promoteDependencyReadySteps | establishApprovalBarrier |
      completeCompensation | recoverAttempt => exact .inl (contexts_inStore _ ▸ h)
  | persistSubmissionFailure prepared errorClass =>
      exact .inl (contexts_recordOutcome _ _ ▸ h)
  -- only a dispatch that is submitted adds a request, its own
  | dispatch prepared =>
      simp only [exec, dispatch] at h
      have hsame := @contexts_inStore s _ (commitAttemptStarted prepared.attempt)
      split at h
      case h_1 heq =>
        rw [heq] at hsame
        exact .inl (hsame ▸ h)
      case h_2 heq =>
        rw [heq] at hsame
        split at h
        · exact .inl (hsame ▸ h)
        · have howned : context ∈ s.contexts ++ [prepared.context] := by
            rw [← hsame]
            simpa only [own, contexts, List.map_append, List.map_singleton] using h
          rcases List.mem_append.mp howned with hold | hnew
          · exact .inl hold
          · refine .inr ⟨prepared, rfl, List.mem_singleton.mp hnew, ?_⟩
            exact isSome_of_dispatch (congrArg Prod.fst heq)
  | _ => exact .inl h

end Shared

/-! ## The keys that the definitions name -/

/-- The definition of the run names the operation. -/
def RunRecord.Names (v : RunRecord) (operation : OperationIdentity) : Prop :=
  ∃ step ∈ v.definition.steps, step.id = operation.stepId ∧
    toolReferenceOf step operation.phase = some operation.tool

/-- A step has at most one tool for a phase. -/
theorem RunRecord.Names.unique {v : RunRecord} {a b : OperationIdentity} (ha : v.Names a)
    (hb : v.Names b) (hrunId : a.runId = b.runId) (hstepId : a.stepId = b.stepId)
    (hphase : a.phase = b.phase) : a = b := by
  obtain ⟨step, hstep, hid, htool⟩ := ha
  obtain ⟨other, hother, hotherId, hotherTool⟩ := hb
  obtain rfl : step = other :=
    v.definition.eq_of_id_eq hstep hother (hid.trans (hstepId.trans hotherId.symm))
  have hsame : a.tool = b.tool := Option.some.inj (htool.symm.trans (hphase ▸ hotherTool))
  cases a
  cases b
  simp only [OperationIdentity.mk.injEq]
  exact ⟨hrunId, hstepId, hphase, hsame⟩

/-- The key is that of the operation which the run's definition names for the step and
the phase. -/
def Shared.KeyOf (cfg : Deployment) (s : Shared) (runId stepId : String)
    (phase : ToolExecutionPhase) (key : String) : Prop :=
  ∃ v tool, s.view runId = some v ∧ v.Names ⟨runId, stepId, phase, tool⟩ ∧
    OperationIdentity.key cfg.runtime ⟨runId, stepId, phase, tool⟩ = .ok key

namespace Shared

variable {cfg : Deployment} {s s' : Shared} {runId stepId key : String}
  {phase : ToolExecutionPhase}

/-- Definitions do not change, and so neither do the keys. -/
theorem KeyOf.follows {cause : Cause} (h : s.KeyOf cfg runId stepId phase key)
    (hfollows : s.Follows cfg cause s') : s'.KeyOf cfg runId stepId phase key := by
  obtain ⟨v, tool, hv, hnames, hkey⟩ := h
  obtain ⟨v', hv', hsame | hmove⟩ := hfollows.views runId v hv
  · exact ⟨v', tool, hv', hsame ▸ hnames, hkey⟩
  · refine ⟨v', tool, hv', ?_, hkey⟩
    rw [RunRecord.Names, hmove.definition_eq]
    exact hnames

theorem KeyOf.unique {key' : String} (h : s.KeyOf cfg runId stepId phase key)
    (h' : s.KeyOf cfg runId stepId phase key') : key = key' := by
  obtain ⟨v, tool, hv, hnames, hkey⟩ := h
  obtain ⟨v', tool', hv', hnames', hkey'⟩ := h'
  obtain rfl : v = v' := Option.some.inj (hv.symm.trans hv')
  have hsame := hnames.unique hnames' rfl rfl rfl
  rw [hsame, hkey'] at hkey
  exact (Except.ok.inj hkey).symm

end Shared

/-- What is prepared is prepared for a step of the definition. -/
theorem RunView.Startable.mem_steps {cfg : Deployment} {v : RunView}
    {prepared : PreparedAttempt} (h : v.Startable cfg prepared) (hkeyed : v.Keyed) :
    prepared.step ∈ v.definition.steps := by
  rcases h.phase with ⟨_, hstep, _⟩ | ⟨_, rest, hsettled⟩
  · exact hstep
  · exact ((hkeyed.mem_pending hsettled.pending).mp List.mem_cons_self).1.1

/-- An attempt that is started, and the request for it, carry the key of the operation. -/
theorem PreparedAttempt.WellKeyed.keyOf {cfg : Deployment} {s : Shared} {v : RunView}
    {prepared : PreparedAttempt} (h : prepared.WellKeyed cfg)
    (hv : s.view prepared.attempt.runId = some v) (hstartable : v.Startable cfg prepared)
    (hkeyed : v.Keyed) :
    s.KeyOf cfg prepared.attempt.runId prepared.attempt.stepId prepared.attempt.phase
      prepared.attempt.idempotencyKey := by
  obtain ⟨_, tool, htool, hkey⟩ := h
  have hid := hstartable.next.stepId
  refine ⟨v, tool, hv, ⟨prepared.step, hstartable.mem_steps hkeyed, hid.symm, htool⟩, ?_⟩
  rw [hid]
  exact hkey

/-! ## The keys of the stored attempts -/

/-- An attempt keeps the key that it was started with. -/
theorem RunMove.idempotencyKey_origin {cfg : Deployment} {cause : Cause} {v v' : RunView}
    (h : RunMove cfg v cause v') {x : StepAttempt} (hx : x ∈ v'.attempts.rows) :
    (∃ a ∈ v.attempts.rows, a.key = x.key ∧ a.idempotencyKey = x.idempotencyKey) ∨
      cause = .start x := by
  have put {a a' : StepAttempt} (hx : x ∈ (v.attempts.put a').rows) (ha : a ∈ v.attempts.rows)
      (hkey : a.key = a'.key) (hidempotency : a.idempotencyKey = a'.idempotencyKey) :
      ∃ a ∈ v.attempts.rows, a.key = x.key ∧ a.idempotencyKey = x.idempotencyKey := by
    rcases KeyedTable.mem_put.mp hx with rfl | ⟨hx, _⟩
    · exact ⟨a, ha, hkey, hidempotency⟩
    · exact ⟨x, hx, rfl, rfl⟩
  cases h with
  | forwardStarted | compensationStarted =>
      rcases KeyedTable.mem_put.mp hx with rfl | ⟨hx, _⟩
      · exact Or.inr rfl
      · exact Or.inl ⟨x, hx, rfl, rfl⟩
  | forwardFinished _ _ _ _ _ hattempt | compensationFinished _ _ hattempt =>
      exact Or.inl (put hx (RunRecord.findAttempt_eq_some hattempt).1 rfl rfl)
  | recoveredApplied _ _ hunresolved
  | recoveredNotApplied _ _ hunresolved
  | recoveredManual _ _ hunresolved =>
      have hmem := RunRecord.mem_stepAttempts.mp (unresolvedAmong_spec hunresolved).1
      exact Or.inl (put hx hmem.1 rfl rfl)
  | _ => exact Or.inl ⟨x, hx, rfl, rfl⟩

/-! ## The invariant -/

/-- What the call in progress dispatches carries the key of its operation. -/
def World.KeyedCall (cfg : Deployment) (w : World) : Prop :=
  Prog.Safe (exec cfg) (fun _ _ => True) (fun _ => True) (fun op _ => op.WellKeyed cfg)
    (Routine.Ensures fun _ _ => True) w.thread w.shared

/-- Every attempt that is stored, and every request in the executor's hands, carries the
key that the definition of its run gives. -/
structure World.Keyed (cfg : Deployment) (w : World) : Prop where
  attempts : ∀ a ∈ w.shared.store.attempts.rows,
    w.shared.KeyOf cfg a.runId a.stepId a.phase a.idempotencyKey
  contexts : ∀ c ∈ w.shared.contexts,
    w.shared.KeyOf cfg c.runId c.stepId c.phase c.logicalIdempotencyKey
  call : w.KeyedCall cfg

namespace World

variable {cfg : Deployment} {w : World}

/-- A step that is about the start of an attempt dispatches it. -/
theorem dispatch_of_cause {action : Action} {attempt : StepAttempt}
    (h : w.cause action = .start attempt) :
    ∃ prepared k, w.thread = .call (.dispatch prepared) k ∧ prepared.attempt = attempt := by
  unfold World.cause at h
  split at h <;> try simp at h
  split at h
  · simp at h
  case h_2 op k hthread =>
    cases op with
    | dispatch prepared =>
        simp only [Op.cause, Cause.start.injEq] at h
        exact ⟨prepared, k, hthread, h⟩
    | collectFuture id now =>
        simp only [Op.cause, Shared.collectCause] at h
        split at h
        case h_1 => simp at h
        case h_2 owned _ => cases hfound : Shared.collectedOutcome owned now <;> simp [hfound] at h
    | closeFuture id =>
        simp only [Op.cause, Shared.closeCause] at h
        split at h <;> simp at h
    | _ => simp [Op.cause] at h

namespace KeyedCall

/-- Others may change what is shared. -/
theorem around (h : w.KeyedCall cfg) (s : Shared) : World.KeyedCall cfg { w with shared := s } := by
  refine Prog.Safe.stable (fun _ _ => trivial) ?_ h trivial
  rintro (_ | _) _ _ _ _ <;> trivial

theorem called (h : w.KeyedCall cfg) {α : Type} {activity : Activity α}
    (hactivity : activity.Keyed cfg fun _ => True) : (w.call activity).KeyedCall cfg := by
  unfold World.call
  split
  · exact Routine.Safe.map (hactivity w.shared)
  · exact h

theorem proceed (h : w.KeyedCall cfg) (inputs : Inputs) : (w.proceed cfg inputs).KeyedCall cfg := by
  unfold World.proceed
  split
  case h_1 => exact h
  case h_2 op k hthread =>
    rw [KeyedCall, hthread] at h
    exact (h w.shared trivial trivial).2 inputs

theorem step (h : w.KeyedCall cfg) (action : Action) : (w.step cfg action).KeyedCall cfg := by
  cases action with
  | runOnce => exact h.called (runOnce_keyed cfg)
  | recover => exact h.called (recover_keyed cfg)
  | close wait => exact h.called (close_keyed cfg wait)
  | proceed inputs => exact h.proceed inputs
  | crash => trivial
  | _ => exact h.around _

end KeyedCall

namespace Keyed

/-- What is dispatched carries the key of its operation. -/
theorem dispatched (h : w.Keyed cfg) (hgood : w.Good cfg) {prepared : PreparedAttempt} {k}
    (hthread : w.thread = .call (.dispatch prepared) k) {v : RunView}
    (hv : w.shared.view prepared.attempt.runId = some v) :
    prepared.WellKeyed cfg ∧ v.Startable cfg prepared ∧
      w.shared.KeyOf cfg prepared.attempt.runId prepared.attempt.stepId prepared.attempt.phase
        prepared.attempt.idempotencyKey := by
  have hsafe := h.call
  have hguarded := hgood.guarded
  rw [World.KeyedCall, hthread] at hsafe
  rw [hthread] at hguarded
  have hwellKeyed : prepared.WellKeyed cfg := (hsafe w.shared trivial trivial).1
  have hstartable : v.Startable cfg prepared :=
    (hguarded w.shared (.refl _) hgood.wellFormed).1 v hv
  exact ⟨hwellKeyed, hstartable,
    hwellKeyed.keyOf hv hstartable (hgood.wellFormed.sound _ v hv).keyed⟩

theorem attempts_step (h : w.Keyed cfg) (hgood : w.Good cfg) (action : Action) :
    ∀ a ∈ (w.step cfg action).shared.store.attempts.rows,
      (w.step cfg action).shared.KeyOf cfg a.runId a.stepId a.phase a.idempotencyKey := by
  intro a ha
  obtain ⟨hgood', hfollows⟩ := hgood.step action
  obtain ⟨v', hv', hattempt⟩ := hgood'.wellFormed.view_of_attempt ha
  refine Shared.KeyOf.follows ?_ hfollows
  cases hv : w.shared.view a.runId with
  | none =>
      have hinitial := (hfollows.created _ v' hv hv').1
      simp [hinitial.attempts] at hattempt
  | some v =>
      have old {b : StepAttempt} (hb : b ∈ v.attempts.rows) (hkey : b.key = a.key)
          (hidempotency : b.idempotencyKey = a.idempotencyKey) :
          w.shared.KeyOf cfg a.runId a.stepId a.phase a.idempotencyKey := by
        obtain ⟨hrunId, hstepId, _, hphase⟩ := StepAttempt.key_eq_iff.mp hkey
        have hkeyOf := h.attempts b ((Shared.mem_attempts_iff hv).mp hb).1
        rwa [hrunId, hstepId, hphase, hidempotency] at hkeyOf
      obtain ⟨v'', hv'', hstep⟩ := hfollows.views _ v hv
      obtain rfl := Option.some.inj (hv''.symm.trans hv')
      rcases hstep with rfl | hmove
      · exact old hattempt rfl rfl
      · rcases hmove.idempotencyKey_origin hattempt with ⟨b, hb, hkey, hidempotency⟩ | hcause
        · exact old hb hkey hidempotency
        · obtain ⟨prepared, k, hthread, rfl⟩ := dispatch_of_cause hcause
          exact (h.dispatched hgood hthread hv).2.2

theorem contexts_proceed (h : w.Keyed cfg) (hgood : w.Good cfg) (inputs : Inputs) :
    ∀ c ∈ (w.proceed cfg inputs).shared.contexts,
      w.shared.KeyOf cfg c.runId c.stepId c.phase c.logicalIdempotencyKey := by
  intro c hc
  unfold World.proceed at hc
  split at hc
  case h_1 => exact h.contexts c hc
  case h_2 op k hthread =>
    rcases Shared.contexts_exec op inputs hc with hold | ⟨prepared, rfl, rfl, hrun⟩
    · exact h.contexts c hold
    · obtain ⟨run, hrun⟩ := Option.isSome_iff_exists.mp hrun
      obtain ⟨record, hrecord⟩ := hgood.wellFormed.record_isSome hrun
      obtain ⟨⟨hsame, _⟩, hstartable, hkeyOf⟩ :=
        h.dispatched hgood hthread (Shared.view_of_record hrecord)
      rw [hstartable.runId, hstartable.context.stepId, hstartable.context.phase, hsame]
      exact hkeyOf

theorem contexts_step (h : w.Keyed cfg) (hgood : w.Good cfg) (action : Action) :
    ∀ c ∈ (w.step cfg action).shared.contexts,
      (w.step cfg action).shared.KeyOf cfg c.runId c.stepId c.phase c.logicalIdempotencyKey := by
  intro c hc
  refine Shared.KeyOf.follows ?_ (hgood.step action).2
  cases action with
  | runOnce | recover | close wait =>
      rw [World.step, World.call_shared] at hc
      exact h.contexts c hc
  | proceed inputs => exact h.contexts_proceed hgood inputs c hc
  | createRun | decide | cancelRun =>
      exact h.contexts c (Shared.contexts_inStore _ ▸ hc)
  | toolDone id ending =>
      refine h.contexts c (Shared.contexts_updateOwned id (fun owned howned _ => ?_) hc)
      split
      · exact @Shared.context_mem w.shared owned howned
      · exact @Shared.context_mem w.shared owned howned
  | tick => exact h.contexts c hc
  | crash => cases hc

end Keyed

theorem initial_keyed (instant : Timestamp) : (World.initial instant).Keyed cfg where
  attempts _ h := absurd h List.not_mem_nil
  contexts _ h := absurd h List.not_mem_nil
  call := trivial

theorem Keyed.step (h : w.Keyed cfg) (hgood : w.Good cfg) (action : Action) :
    (w.step cfg action).Keyed cfg where
  attempts := h.attempts_step hgood action
  contexts := h.contexts_step hgood action
  call := h.call.step action

end World

theorem Reachable.keyed {cfg : Deployment} {permitted : World → Action → Prop} {w : World}
    (h : Reachable cfg permitted w) : w.Keyed cfg := by
  induction h with
  | initial instant => exact World.initial_keyed instant
  | step action h _ ih => exact ih.step h.good action

end ChangePilot
