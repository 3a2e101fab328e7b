import ChangePilot.System.Runs

/-!
# What the process performs

The coordinator's calls never recover, and record a failed submission only right after
the submission has failed; recovery's calls do nothing but recover.
-/

namespace ChangePilot

/-- The operations of a call with their answers. -/
abbrev Performed : Type := Prog.Performed Op fun op => Except Error op.Ans

/-- What the coordinator may perform after `last`. -/
def coordinatorMay (last : Option Performed) : Op → Prop
  | .persistSubmissionFailure prepared _ => last = some ⟨.dispatch prepared, .ok false⟩
  | .recoverAttempt _ _ _ => False
  | _ => True

/-- What recovery may perform. -/
def recoveryMay (_ : Option Performed) : Op → Prop
  | .nonterminalRuns | .pendingRecovery _ | .recoverAttempt _ _ _ => True
  | _ => False

/-- The call keeps to the order that `may` allows, whatever was performed before. -/
def Activity.Keeps {α : Type} (may : Option Performed → Op → Prop) (activity : Activity α) : Prop :=
  ∀ last, Routine.Paced may last activity

namespace Activity.Keeps

variable {may : Option Performed → Op → Prop} {α β : Type}

theorem pure {a : α} : Keeps may (Pure.pure a) := fun _ => .pure

theorem throw {e : Error} : Keeps may (throw e : Activity α) := fun _ => .throw

theorem bind {activity : Activity α} {f : α → Activity β} (h : activity.Keeps may)
    (hf : ∀ a, (f a).Keeps may) : (activity >>= f).Keeps may :=
  fun last => .bind (h last) fun a last => hf a last

theorem operation {op : Op} (hop : ∀ last, may last op) : (Activity.operation op).Keeps may :=
  fun last => .perform (hop last)

theorem lift {x : Except Error α} : (Activity.lift x).Keeps may := by
  cases x with
  | error e => exact throw
  | ok a => exact pure

end Activity.Keeps

/-! ## The coordinator -/

theorem collectEach_keeps (instant : Timestamp) (ids : List ℕ) :
    (collectEach instant ids).Keeps coordinatorMay := by
  induction ids with
  | nil => exact .pure
  | cons id rest ih =>
      refine .bind (.operation fun _ => trivial) fun result => ?_
      refine ih.bind fun _ => ?_
      cases result <;> exact .pure

theorem collectOutcomes_keeps : collectOutcomes.Keeps coordinatorMay :=
  .bind (.operation fun _ => trivial) fun instant =>
    .bind (.operation fun _ => trivial) fun ids => collectEach_keeps instant ids

theorem dispatchedReport_keeps (runId : String) (completed : List ExecutionOutcome)
    (dispatched : List String) :
    (dispatchedReport runId completed dispatched).Keeps coordinatorMay :=
  collectOutcomes_keeps.bind fun _ => .pure

section

variable {cfg : Deployment} {runId : String}

theorem prepare_keeps (step : StepDefinition) (phase : ToolExecutionPhase) :
    (prepare cfg runId step phase).Keeps coordinatorMay :=
  .bind (.operation fun _ => trivial) fun _ => .bind (.operation fun _ => trivial) fun _ =>
    .bind (.operation fun _ => trivial) fun _ => .lift

theorem prepareEach_keeps (steps : List StepDefinition) :
    (prepareEach cfg runId steps).Keeps coordinatorMay := by
  induction steps with
  | nil => exact .pure
  | cons step rest ih => exact (prepare_keeps step .forward).bind fun _ => ih.bind fun _ => .pure

/-- The rule for a dispatch, after whose failure the failure is recorded first. -/
theorem dispatch_keeps {α : Type} {prepared : PreparedAttempt} {submitted : Activity α}
    {errorClass : ErrorClass} {failed : Unit → Activity α} (hsubmitted : submitted.Keeps coordinatorMay)
    (hfailed : (failed ()).Keeps coordinatorMay) :
    (do if ← Activity.dispatch prepared then submitted
        else
          let u ← Activity.persistSubmissionFailure prepared errorClass
          failed u : Activity α).Keeps coordinatorMay := by
  intro last
  refine Routine.Paced.perform_bind trivial fun submits => ?_
  cases submits with
  | true => exact hsubmitted _
  | false => exact Routine.Paced.perform_bind rfl fun _ => hfailed _

theorem dispatchEach_keeps (attempts : List PreparedAttempt) :
    (dispatchEach runId attempts).Keeps coordinatorMay := by
  induction attempts with
  | nil => exact .pure
  | cons prepared rest ih =>
      refine dispatch_keeps (ih.bind fun _ => .pure) ?_
      refine .bind (.operation fun _ => trivial) fun run => ?_
      cases isTerminal run
      · exact ih.bind fun _ => .pure
      · exact .pure

theorem handleApprovalBarrier_keeps (definition : WorkflowDefinition) (step : StepDefinition) :
    (handleApprovalBarrier cfg runId definition step).Keeps coordinatorMay := by
  refine .bind .lift fun snapshot => .bind (.operation fun _ => trivial) fun work => ?_
  split
  · exact .pure
  refine .bind (.operation fun _ => trivial) fun draining => ?_
  split
  · exact .pure
  refine .bind (.operation fun _ => trivial) fun approvals => ?_
  split
  · exact .pure
  · exact .operation fun _ => trivial

theorem runCompensationOnce_keeps (completed : List ExecutionOutcome) :
    (runCompensationOnce cfg runId completed).Keeps coordinatorMay := by
  refine .bind (.operation fun _ => trivial) fun work => ?_
  split
  · exact .pure
  refine .bind (.operation fun _ => trivial) fun draining => ?_
  split
  · exact .pure
  refine .bind (.operation fun _ => trivial) fun loaded => .bind (.operation fun _ => trivial)
    fun attempts => .bind .lift fun compensable => .bind .lift fun pending => ?_
  split
  · exact .pure
  cases pending with
  | nil => exact .bind (.operation fun _ => trivial) fun _ => .pure
  | cons step rest =>
      refine .bind (.operation fun _ => trivial) fun capacity => ?_
      split
      · exact .pure
      refine (prepare_keeps step .compensation).bind fun prepared => ?_
      exact dispatch_keeps (dispatchedReport_keeps _ _ _) .pure

theorem dispatchCandidates_keeps (completed : List ExecutionOutcome) (stepRuns : List StepRun)
    (capacity : ℕ) (readyCandidates : List StepDefinition) :
    (dispatchCandidates cfg runId completed stepRuns capacity readyCandidates).Keeps
      coordinatorMay := by
  simp only [dispatchCandidates]
  split
  · exact .bind (.operation fun _ => trivial) fun _ => .pure
  refine .bind (fun last => .tryCatch (.map (prepareEach_keeps _ last)) fun _ _ => .pure)
    fun preparedAttempts => ?_
  cases preparedAttempts with
  | none => exact .pure
  | some preparedAttempts =>
      exact (dispatchEach_keeps preparedAttempts).bind fun _ => dispatchedReport_keeps _ _ _

theorem runForwardOnce_keeps (completed : List ExecutionOutcome) :
    (runForwardOnce cfg runId completed).Keeps coordinatorMay := by
  refine .bind (.operation fun _ => trivial) fun instant => .bind (.operation fun _ => trivial)
    fun _ => .bind (.operation fun _ => trivial) fun _ => .bind (.operation fun _ => trivial)
    fun loaded => .bind (.operation fun _ => trivial) fun capacity => .bind .lift fun ready =>
    .bind .lift fun protectedStep => ?_
  cases protectedStep with
  | none => exact dispatchCandidates_keeps _ _ _ _
  | some step =>
      refine (handleApprovalBarrier_keeps _ step).bind fun reason => ?_
      cases reason with
      | some reason => exact .pure
      | none => exact dispatchCandidates_keeps _ _ _ _

theorem runSelected_keeps (selectedRun : Option WorkflowRun) (completed : List ExecutionOutcome)
    (collectionFailed : Bool) :
    (runSelected cfg runId selectedRun completed collectionFailed).Keeps coordinatorMay := by
  -- both branches of a stored run end in these lines
  have afterwards (run : WorkflowRun) : Activity.Keeps coordinatorMay (do
      if run.state = .compensating then
        if collectionFailed then return blocked runId completed .internalConsistency
        runCompensationOnce cfg runId completed
      else if ¬ run.state.Forward then return blocked runId completed .runNotForward
      else if collectionFailed then return blocked runId completed .internalConsistency
      else if ← Activity.hasPersistedRecoveryWork runId then
        let locallyUnknown ← Activity.isLocallyUnknown runId
        return blocked runId completed
          (if locallyUnknown then .resultUnknown else .approvalRecoveryRequired)
      else runForwardOnce cfg runId completed) := by
    split
    · split
      · exact .pure
      · exact runCompensationOnce_keeps _
    split
    · exact .pure
    split
    · exact .pure
    refine .bind (.operation fun _ => trivial) fun work => ?_
    split
    · exact .bind (.operation fun _ => trivial) fun _ => .pure
    · exact runForwardOnce_keeps _
  cases selectedRun with
  | none =>
      simp only [runSelected]
      split
      · exact .pure
      · exact runForwardOnce_keeps _
  | some run =>
      simp only [runSelected]
      split
      · exact .pure
      split
      · refine .bind (.operation fun _ => trivial) fun work => ?_
        split
        · exact .pure
        · exact afterwards run
      · exact afterwards run

end

theorem runOnce_keeps (cfg : Deployment) : (runOnce cfg).Keeps coordinatorMay := by
  refine .bind (.operation fun _ => trivial) fun closed => ?_
  split
  · exact .pure
  refine collectOutcomes_keeps.bind fun collected => .bind (.operation fun _ => trivial)
    fun selected => ?_
  cases selected with
  | none => exact .pure
  | some runId => exact .bind (.operation fun _ => trivial) fun _ => runSelected_keeps _ _ _

theorem collectOrRaise_keeps : collectOrRaise.Keeps coordinatorMay := by
  refine collectOutcomes_keeps.bind fun collected => ?_
  split
  split
  · exact .throw
  · exact .pure

theorem closeEach_keeps (ids : List ℕ) : (closeEach ids).Keeps coordinatorMay := by
  induction ids with
  | nil => exact .pure
  | cons id rest ih => exact .bind (.operation fun _ => trivial) fun _ => ih

theorem close_keeps (wait : Bool) : (close wait).Keeps coordinatorMay := by
  refine .bind (.operation fun _ => trivial) fun closed => ?_
  split
  · exact .pure
  refine collectOrRaise_keeps.bind fun _ => ?_
  split
  · exact .bind (.operation fun _ => trivial) fun _ => collectOrRaise_keeps.bind fun _ =>
      .operation fun _ => trivial
  · exact .bind (.operation fun _ => trivial) fun ids => (closeEach_keeps ids).bind fun _ =>
      .operation fun _ => trivial

/-! ## Recovery -/

theorem recoverEach_keeps (runId : String) (pending : List (String × StepAttempt)) :
    (recoverEach runId pending).Keeps recoveryMay := by
  induction pending with
  | nil => exact .pure
  | cons attempt rest ih => exact .bind (.operation fun _ => trivial) fun _ => ih

theorem recoverRuns_keeps (runIds : List String) : (recoverRuns runIds).Keeps recoveryMay := by
  induction runIds with
  | nil => exact .pure
  | cons runId rest ih =>
      refine .bind (.bind (.operation fun _ => trivial) fun pending => ?_) fun changed =>
        ih.bind fun _ => .pure
      cases pending with
      | none => exact .pure
      | some pending => exact (recoverEach_keeps runId pending).bind fun _ => .pure

theorem recoverNonterminalRuns_keeps : recoverNonterminalRuns.Keeps recoveryMay :=
  .bind (.operation fun _ => trivial) fun runIds => recoverRuns_keeps runIds

/-! ## Recovery at restart -/

/-- No request is in flight. -/
def Shared.Resting (s : Shared) : Prop := ∀ runId, s.inFlight runId = []

/-- Recovery is called while nothing is in flight, as at the start of a process. -/
def World.RecoversAtRestart (w : World) (action : Action) : Prop :=
  action = .recover → w.shared.Resting

/-- The process is in a call of the coordinator, or in one of recovery with nothing in
flight. -/
def World.Ordered (w : World) : Prop :=
  (∃ last, Prog.Paced coordinatorMay last w.thread) ∨
    ((∃ last, Prog.Paced recoveryMay last w.thread) ∧ w.shared.Resting)

namespace Shared

variable {s : Shared}

theorem inStore_inFlight {α : Type} (body : UowM (Exit α)) (runId : String) :
    (s.inStore body).2.inFlight runId = s.inFlight runId := by
  unfold inStore
  split <;> rfl

end Shared

namespace World

variable {cfg : Deployment} {w : World}

theorem Ordered.call {α : Type} {activity : Activity α} (h : w.Ordered)
    (hactivity : activity.Keeps coordinatorMay ∨
      (activity.Keeps recoveryMay ∧ w.shared.Resting)) : (w.call activity).Ordered := by
  unfold World.call
  split
  · rcases hactivity with hkeeps | ⟨hkeeps, hresting⟩
    · exact Or.inl ⟨none, Routine.Paced.map (hkeeps none)⟩
    · exact Or.inr ⟨⟨none, Routine.Paced.map (hkeeps none)⟩, hresting⟩
  · exact h

/-- Recovery's operations leave the coordinator alone. -/
theorem resting_exec {last : Option Performed} {op : Op} (hop : recoveryMay last op)
    (inputs : Inputs) {s : Shared} (h : s.Resting) : (exec cfg op inputs s).2.Resting := by
  intro runId
  cases op with
  | nonterminalRuns => exact h runId
  | pendingRecovery _ => exact h runId
  | recoverAttempt => exact (Shared.inStore_inFlight _ runId).trans (h runId)
  | _ => exact hop.elim

theorem Ordered.proceed (h : w.Ordered) (inputs : Inputs) : (w.proceed cfg inputs).Ordered := by
  unfold World.proceed
  split
  case h_1 => exact h
  case h_2 op k hthread =>
    rcases h with ⟨last, hpaced⟩ | ⟨⟨last, hpaced⟩, hresting⟩ <;> rw [hthread] at hpaced
    · exact Or.inl ⟨_, hpaced.2 _⟩
    · exact Or.inr ⟨⟨_, hpaced.2 _⟩, resting_exec hpaced.1 inputs hresting⟩

theorem Ordered.step (h : w.Ordered) (hw : w.shared.WellFormed) {action : Action}
    (hpermitted : w.RecoversAtRestart action) : (w.step cfg action).Ordered := by
  have around {s : Shared} (hs : ∀ runId, s.inFlight runId = w.shared.inFlight runId) :
      World.Ordered { w with shared := s } :=
    h.imp_right fun ⟨hpaced, hresting⟩ => ⟨hpaced, fun runId => (hs runId).trans (hresting runId)⟩
  cases action with
  | runOnce => exact h.call (Or.inl (runOnce_keeps cfg))
  | recover => exact h.call (Or.inr ⟨recoverNonterminalRuns_keeps, hpermitted rfl⟩)
  | close wait => exact h.call (Or.inl (close_keeps wait))
  | proceed inputs => exact h.proceed inputs
  | createRun | decide | cancelRun => exact around (Shared.inStore_inFlight _)
  | toolDone id ending =>
      exact around (@Shared.toolDone_still cfg .other _ hw id ending).1
  | tick => exact around fun _ => rfl
  | crash => exact Or.inl ⟨none, trivial⟩

/-- What is about a recovery is the operation that recovers. -/
theorem recovery_of_cause {action : Action} {runId stepId : String} {attempt : StepAttempt}
    {answers : ProbeAnswers} {instant : Timestamp}
    (h : w.cause action = .recovery runId stepId attempt answers instant) :
    ∃ k, w.thread = .call (.recoverAttempt runId stepId attempt) k := by
  unfold World.cause at h
  split at h <;> try simp at h
  split at h
  · simp at h
  case h_2 op k hthread =>
    cases op with
    | recoverAttempt =>
        simp only [Op.cause, Cause.recovery.injEq] at h
        obtain ⟨rfl, rfl, rfl, _⟩ := h
        exact ⟨k, hthread⟩
    | collectFuture id now =>
        simp only [Op.cause, Shared.collectCause] at h
        split at h
        case h_1 => simp at h
        case h_2 owned _ => cases hfound : Shared.collectedOutcome owned now <;> simp [hfound] at h
    | closeFuture id =>
        simp only [Op.cause, Shared.closeCause] at h
        split at h <;> simp at h
    | _ => simp [Op.cause] at h

end World

theorem Reachable.ordered {cfg : Deployment} {w : World}
    (h : Reachable cfg World.RecoversAtRestart w) : w.Ordered := by
  induction h with
  | initial => exact Or.inl ⟨none, trivial⟩
  | step action h hpermitted ih => exact ih.step h.good.wellFormed hpermitted

/-- When recovery is called only at restart, its units of work find nothing in flight. -/
theorem Reachable.resting_of_recovery {cfg : Deployment} {w : World}
    (h : Reachable cfg World.RecoversAtRestart w) {action : Action} {runId stepId : String}
    {attempt : StepAttempt} {answers : ProbeAnswers} {instant : Timestamp}
    (hcause : w.cause action = .recovery runId stepId attempt answers instant) :
    w.shared.Resting := by
  obtain ⟨k, hthread⟩ := World.recovery_of_cause hcause
  rcases h.ordered with ⟨last, hpaced⟩ | ⟨_, hresting⟩
  · rw [hthread] at hpaced
    exact hpaced.1.elim
  · exact hresting

end ChangePilot
