import ChangePilot.System.AttemptLog
import ChangePilot.System.Threads

/-!
# No blind retries

Another attempt of a step and phase starts only when the last one failed retryably, with
attempts left and its backoff over, or was found by a probe to have had no effect.  For a
tool that is not idempotent there is no probe, so that an attempt whose result is not
known stays the last one.

That a start has a reason is read off the move (`RunMove.retriable_of_start`), with the
attempts as `Logged` has them.  That an attempt stays the last one is an invariant
(`RunView.Spent`), which every move keeps (`RunMove.spent`): no request in flight answers
the attempt, and recovery can only give its run up.  The two meet in `Spent.not_starts`.
-/

namespace ChangePilot

/-! ## What comes before a start -/

section

variable {cfg : Deployment} {cause : Cause} {v v' : RunView} {attempt a b : StepAttempt}

/-- An attempt that is not the first of its phase follows one that may be retried. -/
theorem RunMove.retriable_of_start (h : RunMove cfg v (.start attempt) v') (hv : v.Sound)
    (hlogged : v.Logged) :
    attempt.attemptNo = 1 ∨ ∃ a, v.Last a ∧ a.stepId = attempt.stepId ∧
      a.phase = attempt.phase ∧ a.attemptNo + 1 = attempt.attemptNo ∧ v.Retriable a := by
  -- The attempt with the greatest number is the one before.
  have previous {id : String} {kind : ToolExecutionPhase} (hnext : v.IsNext id kind attempt)
      (hretriable : ∀ a, v.Last a → a.stepId = id → a.phase = kind → v.Retriable a) :
      attempt.attemptNo = 1 ∨ ∃ a, v.Last a ∧ a.stepId = attempt.stepId ∧
        a.phase = attempt.phase ∧ a.attemptNo + 1 = attempt.attemptNo ∧ v.Retriable a := by
    rw [hnext.attemptNo, hnext.stepId, hnext.phase]
    refine (nextAttemptNo_cases (v.stepAttempts id) kind).imp_right ?_
    rintro ⟨a, ha, hphase, hno⟩
    obtain ⟨ha, hid⟩ := RunRecord.mem_stepAttempts.mp ha
    have hlast : v.Last a := by
      refine ⟨ha, fun b hb hstepId hkind => ?_⟩
      have hlt := lt_nextAttemptNo (RunRecord.mem_stepAttempts.mpr ⟨hb, hstepId.trans hid⟩)
        (hkind.trans hphase)
      omega
    exact ⟨a, hlast, hid, hphase, hno, hretriable a hlast hid hphase⟩
  cases h with
  | @forwardStarted _ step row _ _ _ _ _ hrow hready hnext =>
      refine previous hnext fun a hlast hid hphase => hlogged.ready a hlast hphase ?_
      rw [hid]
      exact RunRecord.stateOf_eq_some_iff.mpr ⟨row, hrow, hready⟩
  | @compensationStarted step rest _ _ _ hstate hquiet _ hpending hnext =>
      refine previous hnext fun a hlast hid hphase => Or.inl ?_
      -- a compensation that is still to be made has not completed, and nothing runs
      have hopen := ((hv.keyed.mem_pending hpending).mp List.mem_cons_self).2 a hlast.mem hid hphase
      have hstatus := hlogged.compensating hstate a hlast.mem hphase
      have hrunning := (hquiet.attempts a hlast.mem).1
      simp only [StepAttempt.Completed, not_or] at hopen
      simpa [hopen.1, hopen.2, hrunning] using hstatus

/-- Nothing is started after an attempt that cannot be retried. -/
theorem RunMove.not_start_of_last (h : RunMove cfg v (.start attempt) v') (hv : v.Sound)
    (hlogged : v.Logged) (hlast : v.Last b) (hnot : ¬ v.Retriable b) :
    ¬ (attempt.stepId = b.stepId ∧ attempt.phase = b.phase) := by
  rintro ⟨hstepId, hphase⟩
  rcases h.retriable_of_start hv hlogged with hone | ⟨a, ha, hid, hkind, _, hretriable⟩
  · obtain ⟨_, _, hnext⟩ : ∃ id kind, v.IsNext id kind attempt := by
      cases h with
      | forwardStarted _ _ _ _ hnext => exact ⟨_, _, hnext⟩
      | compensationStarted _ _ _ _ hnext => exact ⟨_, _, hnext⟩
    have hlt := lt_nextAttemptNo (RunRecord.mem_stepAttempts.mpr
      ⟨hlast.mem, hstepId.symm.trans hnext.stepId⟩) (hphase.symm.trans hnext.phase)
    have hpos := hlogged.positive b hlast.mem
    rw [← hnext.attemptNo] at hlt
    omega
  · obtain rfl : a = b := hv.keyed.last_unique ha hlast (hid.trans hstepId) (hkind.trans hphase)
    exact hnot hretriable

/-- An attempt is recorded as not applied by a recovery whose probe found no effect. -/
theorem RunMove.notApplied_origin (h : RunMove cfg v cause v') (hb : b ∈ v'.attempts.rows)
    (hstatus : b.status = .notApplied) :
    (∃ a ∈ v.attempts.rows, a.key = b.key ∧ a.status = .notApplied) ∨
      ∃ step ∈ v.definition.steps, ∃ a ∈ v.attempts.rows, ∃ expected answers instant,
        step.id = b.stepId ∧ a.key = b.key ∧
          cause = .recovery v.run.runId step.id expected answers instant ∧
          probe cfg answers step a instant = .ok (some .notFound) := by
  -- an attempt that was there keeps its status
  have old (hb : b ∈ v.attempts.rows) : ∃ a ∈ v.attempts.rows, a.key = b.key ∧
      a.status = .notApplied := ⟨b, hb, rfl, hstatus⟩
  cases h with
  | forwardStarted _ _ _ _ hnext | compensationStarted _ _ _ _ hnext =>
      rcases KeyedTable.mem_put.mp hb with rfl | ⟨hb, _⟩
      · simp [hnext.status] at hstatus
      · exact Or.inl (old hb)
  | @forwardFinished _ _ _ _ outcome | @compensationFinished _ _ outcome =>
      rcases KeyedTable.mem_put.mp hb with rfl | ⟨hb, _⟩
      -- an outcome is a success or a failure
      · rcases outcome.status_eq with h | h <;>
          simp [StepAttempt.completedWith, h] at hstatus
      · exact Or.inl (old hb)
  | recoveredApplied =>
      rcases KeyedTable.mem_put.mp hb with rfl | ⟨hb, _⟩
      · simp [StepAttempt.applied] at hstatus
      · exact Or.inl (old hb)
  | @recoveredNotApplied step _ _ a expected answers instant _ hstep _ hunresolved _ hprobe =>
      rcases KeyedTable.mem_put.mp hb with rfl | ⟨hb, _⟩
      · obtain ⟨ha, hid⟩ := RunRecord.mem_stepAttempts.mp (unresolvedAmong_spec hunresolved).1
        exact Or.inr ⟨step, hstep, a, ha, expected, answers, instant, hid.symm, rfl, rfl, hprobe⟩
      · exact Or.inl (old hb)
  | recoveredManual =>
      rcases KeyedTable.mem_put.mp hb with rfl | ⟨hb, _⟩
      · simp [StepAttempt.closed] at hstatus
      · exact Or.inl (old hb)
  | _ => exact Or.inl (old hb)

end

/-! ## Requests in flight and recorded results -/

/-- A request in flight is the only one of its attempt, which has no result yet. -/
structure RunView.Answered (v : RunView) : Prop where
  single : ∀ f ∈ v.inFlight, ∀ g ∈ v.inFlight, f.2.stepId = g.2.stepId →
    f.2.attemptNumber = g.2.attemptNumber → f.2.phase = g.2.phase → f = g
  alone : ∀ a ∈ v.attempts.rows, a.errorClass.isSome → ∀ f ∈ v.inFlight, ¬ f.2.IsFor a
  ended : ∀ a ∈ v.attempts.rows, a.errorClass.isSome → a.status ≠ .running

section

variable {cfg : Deployment} {cause : Cause} {v v' : RunView} {attempt a b : StepAttempt}

theorem RunView.Answered.single_of_isFor (hv : v.Answered) {f g : ℕ × ToolExecutionContext}
    (hf : f ∈ v.inFlight) (hg : g ∈ v.inFlight) (hfor : f.2.IsFor a) (hforG : g.2.IsFor a) :
    f = g :=
  hv.single f hf g hg (hfor.stepId.trans hforG.stepId.symm)
    (hfor.attemptNo.trans hforG.attemptNo.symm) (hfor.phase.trans hforG.phase.symm)

/-- After an outcome nothing is in flight for the attempt it is written into. -/
theorem RunView.Answered.returned (hv : v.Answered) (hsound : v.Sound)
    {outcome : ExecutionOutcome} {phase : ToolExecutionPhase}
    {futures : List (ℕ × ToolExecutionContext)} (hsource : v.Outstanding outcome phase futures)
    (ha : v.findAttempt outcome.stepId outcome.attemptNo = some a) :
    ∀ f ∈ futures, ¬ f.2.IsFor a := by
  rcases hsource.finds hsound ha with ⟨f, hf, hfor, rfl⟩ | ⟨_, rfl, hnone⟩
  · intro g hg hforG
    obtain ⟨hg, hne⟩ := List.mem_filter.mp hg
    simp [hv.single_of_isFor hg hf hforG hfor] at hne
  · exact hnone

/-- A request in flight is not one for an attempt that is new. -/
theorem RunRecord.IsNext.not_isFor (hsound : v.Sound) {id : String} {kind : ToolExecutionPhase}
    (hnext : v.IsNext id kind attempt) {f : ℕ × ToolExecutionContext} (hf : f ∈ v.inFlight) :
    ¬ f.2.IsFor attempt := by
  intro hfor
  obtain ⟨a, ha, hforA⟩ := hsound.inFlight f hf
  refine hnext.key_ne ha (StepAttempt.key_eq_iff.mpr ⟨?_, hforA.stepId.symm.trans hfor.stepId,
    hforA.attemptNo.symm.trans hfor.attemptNo, hforA.phase.symm.trans hfor.phase⟩)
  exact (hsound.keyed.attempt a ha).trans hnext.runId.symm

theorem RunMove.answered (h : RunMove cfg v cause v') (hv : v.Answered) (hsound : v.Sound) :
    v'.Answered := by
  have shrinks (hsublist : v'.inFlight.Sublist v.inFlight) : ∀ f ∈ v'.inFlight,
      ∀ g ∈ v'.inFlight, f.2.stepId = g.2.stepId → f.2.attemptNumber = g.2.attemptNumber →
        f.2.phase = g.2.phase → f = g :=
    fun f hf g hg => hv.single f (hsublist.subset hf) g (hsublist.subset hg)
  have same (hattempts : v'.attempts = v.attempts) (hsublist : v'.inFlight.Sublist v.inFlight) :
      v'.Answered :=
    ⟨shrinks hsublist, fun a ha hclass f hf => hv.alone a (hattempts ▸ ha) hclass f
      (hsublist.subset hf), fun a ha => hv.ended a (hattempts ▸ ha)⟩
  -- A result is written into an attempt for which nothing is left in flight.
  have written {new : StepAttempt} (hattempts : v'.attempts = v.attempts.put new)
      (hsublist : v'.inFlight.Sublist v.inFlight) (hstatus : new.status ≠ .running)
      (hnone : new.errorClass.isSome → ∀ f ∈ v'.inFlight, ¬ f.2.IsFor new) : v'.Answered := by
    refine ⟨shrinks hsublist, fun a ha hclass f hf => ?_, fun a ha hclass => ?_⟩
    · rcases KeyedTable.mem_put.mp (hattempts ▸ ha) with rfl | ⟨ha, _⟩
      · exact hnone hclass f hf
      · exact hv.alone a ha hclass f (hsublist.subset hf)
    · rcases KeyedTable.mem_put.mp (hattempts ▸ ha) with rfl | ⟨ha, _⟩
      · exact hstatus
      · exact hv.ended a ha hclass
  have started {attempt : StepAttempt} {id : String} {kind : ToolExecutionPhase}
      (hnext : v.IsNext id kind attempt)
      (hattempts : v'.attempts = v.attempts.put attempt)
      (hfutures : v.Submission attempt v'.inFlight) : v'.Answered := by
    refine ⟨fun f hf g hg hstepId hno hphase => ?_, fun a ha hclass f hf hfor => ?_,
      fun a ha hclass => ?_⟩
    · rcases hfutures.mem hf with hf' | hforF <;> rcases hfutures.mem hg with hg' | hforG
      · exact hv.single f hf' g hg' hstepId hno hphase
      · exact absurd ⟨hstepId.trans hforG.stepId, hno.trans hforG.attemptNo,
          hphase.trans hforG.phase⟩ (hnext.not_isFor hsound hf')
      · exact absurd ⟨hstepId.symm.trans hforF.stepId, hno.symm.trans hforF.attemptNo,
          hphase.symm.trans hforF.phase⟩ (hnext.not_isFor hsound hg')
      · -- both are the request that has just been submitted
        generalize hfutures' : v'.inFlight = futures at hfutures hf hg
        cases hfutures with
        | notSubmitted => exact hv.single f hf g hg hstepId hno hphase
        | submitted =>
            have new {f : ℕ × ToolExecutionContext} {context : ToolExecutionContext} {id : ℕ}
                (hf : f ∈ v.inFlight ++ [(id, context)]) (hforF : f.2.IsFor attempt) :
                f = (id, context) :=
              List.mem_singleton.mp ((List.mem_append.mp hf).resolve_left fun hf =>
                hnext.not_isFor hsound hf hforF)
            exact (new hf hforF).trans (new hg hforG).symm
    · rcases KeyedTable.mem_put.mp (hattempts ▸ ha) with rfl | ⟨ha, hne⟩
      · simp [hnext.errorClass] at hclass
      · rcases hfutures.mem hf with hf | hforA
        · exact hv.alone a ha hclass f hf hfor
        · refine hne (StepAttempt.key_eq_iff.mpr ⟨(hsound.keyed.attempt a ha).trans
            hnext.runId.symm, hfor.stepId.symm.trans hforA.stepId,
            hfor.attemptNo.symm.trans hforA.attemptNo, hfor.phase.symm.trans hforA.phase⟩)
    · rcases KeyedTable.mem_put.mp (hattempts ▸ ha) with rfl | ⟨ha, _⟩
      · simp [hnext.errorClass] at hclass
      · exact hv.ended a ha hclass
  cases h with
  | forget => exact same rfl (List.nil_sublist _)
  | forwardStarted _ _ _ _ hnext _ hfutures => exact started hnext rfl hfutures
  | compensationStarted _ _ _ _ hnext hfutures => exact started hnext rfl hfutures
  | @forwardFinished _ _ _ a outcome _ _ _ _ _ _ _ _ hsource _ _ _ hattempt =>
      refine written rfl hsource.sublist ?_ fun _ f hf hfor =>
        hv.returned hsound hsource hattempt f hf (hfor.of_key_eq rfl)
      rcases outcome.status_eq with h | h <;> simp [StepAttempt.completedWith, h]
  | @compensationFinished _ a outcome _ _ _ _ _ _ hsource hattempt =>
      refine written rfl hsource.sublist ?_ fun _ f hf hfor =>
        hv.returned hsound hsource hattempt f hf (hfor.of_key_eq rfl)
      rcases outcome.status_eq with h | h <;> simp [StepAttempt.completedWith, h]
  | recoveredApplied =>
      exact written rfl (List.Sublist.refl _) (by simp [StepAttempt.applied])
        (by simp [StepAttempt.applied])
  | @recoveredNotApplied _ _ _ a _ _ _ _ _ _ hunresolved
  | @recoveredManual _ _ _ _ a _ _ _ _ _ _ hunresolved =>
      have ha := (RunRecord.mem_stepAttempts.mp (unresolvedAmong_spec hunresolved).1).1
      exact written rfl (List.Sublist.refl _) (by simp [StepAttempt.closed])
        fun hclass f hf hfor => hv.alone a ha hclass f hf (hfor.of_key_eq rfl)
  | _ => exact same rfl (List.Sublist.refl _)

end

/-! ## Tools that are not idempotent -/

/-- The tool for the attempt's step and phase is registered as not idempotent. -/
def RunRecord.NotIdempotent (v : RunRecord) (cfg : Deployment) (a : StepAttempt) : Prop :=
  ∃ step ∈ v.definition.steps, step.id = a.stepId ∧ ∃ reference descriptor,
    toolReferenceOf step a.phase = some reference ∧
      cfg.registry.descriptorFor reference.name reference.version = .ok descriptor ∧
      descriptor.idempotency = .none

/-- No attempt is known to have had no effect, and only retryable failures have been
followed by another attempt. -/
structure RunView.Unprobed (v : RunView) (cfg : Deployment) : Prop where
  effective : ∀ a ∈ v.attempts.rows, v.NotIdempotent cfg a → a.status ≠ .notApplied
  earlier : ∀ a ∈ v.attempts.rows, v.NotIdempotent cfg a → ¬ v.Last a → v.FailedRetryably a

/-- The last attempt of its step and phase cannot be retried as it is, and no request
in flight can change that. -/
structure RunView.Spent (v : RunView) (b : StepAttempt) : Prop where
  last : v.Last b
  status : b.status ≠ .notApplied
  errorClass : b.errorClass ≠ some .retryable
  unanswered : ∀ f ∈ v.inFlight, ¬ f.2.IsFor b

section

variable {cfg : Deployment} {cause : Cause} {v v' : RunView} {a b : StepAttempt}

/-- Recovery asks no probe of such a tool. -/
theorem RunRecord.NotIdempotent.probe_eq (h : v.NotIdempotent cfg a) {step : StepDefinition}
    (hstep : step ∈ v.definition.steps) (hid : step.id = a.stepId) (answers : ProbeAnswers)
    (now : Timestamp) : probe cfg answers step a now = .ok none := by
  obtain ⟨other, hother, hotherId, reference, descriptor, hreference, hdescriptor, hnone⟩ := h
  obtain rfl : step = other := v.definition.eq_of_id_eq hstep hother (hid.trans hotherId.symm)
  simp [probe, hreference, hdescriptor, hnone, bind, Except.bind, pure, Except.pure]

theorem RunRecord.NotIdempotent.of_key_eq (h : v.NotIdempotent cfg a) (hkey : b.key = a.key)
    (hdefinition : v'.definition = v.definition) : v'.NotIdempotent cfg b := by
  obtain ⟨_, hstepId, _, hphase⟩ := StepAttempt.key_eq_iff.mp hkey
  unfold RunRecord.NotIdempotent
  rw [hdefinition, hstepId, hphase]
  exact h

theorem RunView.Spent.not_retriable (h : v.Spent b) : ¬ v.Retriable b := by
  rintro (hstatus | ⟨hfailed, _⟩)
  · exact h.status hstatus
  · exact h.errorClass hfailed.errorClass

/-- Only the failure to submit it could still be recorded for the attempt. -/
theorem RunView.Spent.running_of_found (h : v.Spent b) (hsound : v.Sound)
    {outcome : ExecutionOutcome} {phase : ToolExecutionPhase}
    {futures : List (ℕ × ToolExecutionContext)} (hsource : v.Outstanding outcome phase futures)
    (hfound : v.findAttempt outcome.stepId outcome.attemptNo = some b) :
    b.status = .running ∧ ∀ f ∈ v.inFlight,
      ¬ (f.2.stepId = outcome.stepId ∧ f.2.attemptNumber = outcome.attemptNo) := by
  refine ⟨?_, ?_⟩
  · rcases hsource.finds hsound hfound with ⟨f, hf, hfor, _⟩ | ⟨hrunning, _⟩
    · exact absurd hfor (h.unanswered f hf)
    · exact hrunning
  · rintro f hf ⟨hstepId, hno⟩
    have hother : v.Outstanding outcome f.2.phase (v.inFlight.filter fun g => g.1 ≠ f.1) :=
      .inFlight hf hstepId hno rfl
    rcases hother.finds hsound hfound with ⟨g, hg, hfor, _⟩ | ⟨_, hall, _⟩
    · exact h.unanswered g hg hfor
    · rw [← hall] at hf
      simp at hf

/-- Nothing but an operator gets past such an attempt, unless the failure to submit it is
recorded. -/
theorem RunMove.spent (h : RunMove cfg v cause v') (hsound : v.Sound) (hlogged : v.Logged)
    (hnone : v.NotIdempotent cfg b) (hb : v.Spent b)
    (hrecorded : ∀ outcome, cause = .outcome outcome → outcome.stepId = b.stepId →
      outcome.attemptNo = b.attemptNo → b.status = .running →
        ∃ f ∈ v.inFlight, f.2.stepId = outcome.stepId ∧ f.2.attemptNumber = outcome.attemptNo) :
    ∃ b', v'.Spent b' ∧ b'.key = b.key ∧ (b'.status = .running → b.status = .running) := by
  have same (hattempts : v'.attempts = v.attempts) (hsublist : v'.inFlight.Sublist v.inFlight) :
      ∃ b', v'.Spent b' ∧ b'.key = b.key ∧ (b'.status = .running → b.status = .running) :=
    ⟨b, ⟨hb.last.of_key_eq (hattempts ▸ hb.last.mem) rfl fun c hc => ⟨c, hattempts ▸ hc, rfl⟩,
      hb.status, hb.errorClass, fun f hf => hb.unanswered f (hsublist.subset hf)⟩, rfl, id⟩
  -- Another attempt is written.
  have elsewhere {new : StepAttempt} (hattempts : v'.attempts = v.attempts.put new)
      (hkey : new.key ≠ b.key) (hfutures : ∀ f ∈ v'.inFlight, ¬ f.2.IsFor b)
      (hgreatest : new.stepId = b.stepId → new.phase = b.phase → new.attemptNo ≤ b.attemptNo) :
      ∃ b', v'.Spent b' ∧ b'.key = b.key ∧ (b'.status = .running → b.status = .running) := by
    refine ⟨b, ⟨⟨?_, fun c hc hstepId hphase => ?_⟩, hb.status, hb.errorClass, hfutures⟩, rfl, id⟩
    · rw [hattempts]
      exact KeyedTable.mem_put.mpr (Or.inr ⟨hb.last.mem, hkey.symm⟩)
    · rcases KeyedTable.mem_put.mp (hattempts ▸ hc) with rfl | ⟨hc, _⟩
      · exact hgreatest hstepId hphase
      · exact hb.last.greatest c hc hstepId hphase
  have started {attempt : StepAttempt} {id : String} {kind : ToolExecutionPhase}
      (hnext : v.IsNext id kind attempt) (hattempts : v'.attempts = v.attempts.put attempt)
      (hfutures : v.Submission attempt v'.inFlight) (hcause : cause = .start attempt) :
      ∃ b', v'.Spent b' ∧ b'.key = b.key ∧ (b'.status = .running → b.status = .running) := by
    subst hcause
    have hother := h.not_start_of_last hsound hlogged hb.last hb.not_retriable
    refine elsewhere hattempts (hnext.key_ne hb.last.mem).symm (fun f hf hfor => ?_)
      fun hstepId hphase => absurd ⟨hstepId, hphase⟩ hother
    rcases hfutures.mem hf with hf | hforNew
    · exact hb.unanswered f hf hfor
    · exact hother ⟨hforNew.stepId.symm.trans hfor.stepId, hforNew.phase.symm.trans hfor.phase⟩
  -- An outcome is written into another attempt.
  have finished {outcome : ExecutionOutcome} {phase : ToolExecutionPhase} {old new : StepAttempt}
      (hsource : v.Outstanding outcome phase v'.inFlight)
      (hfound : v.findAttempt outcome.stepId outcome.attemptNo = some old)
      (hattempts : v'.attempts = v.attempts.put new) (hkey : new.key = old.key)
      (hcause : cause = .outcome outcome) :
      ∃ b', v'.Spent b' ∧ b'.key = b.key ∧ (b'.status = .running → b.status = .running) := by
    obtain ⟨hold, hid, hno⟩ := RunRecord.findAttempt_eq_some hfound
    obtain ⟨_, hstepId, hattemptNo, hphase⟩ := StepAttempt.key_eq_iff.mp hkey
    refine elsewhere hattempts (fun hsame => ?_)
      (fun f hf => hb.unanswered f (hsource.sublist.subset hf)) fun hstep hkind => ?_
    · obtain rfl := v.attempts.eq_of_key_eq hold hb.last.mem (hkey.symm.trans hsame)
      obtain ⟨hrunning, hunanswered⟩ := hb.running_of_found hsound hsource hfound
      obtain ⟨f, hf, hanswers⟩ := hrecorded outcome hcause hid.symm hno.symm hrunning
      exact hunanswered f hf hanswers
    · rw [hattemptNo]
      exact hb.last.greatest old hold (hstepId.symm.trans hstep) (hphase.symm.trans hkind)
  -- Recovery decides on an attempt that is the last of its step and phase.
  have recovered {step : StepDefinition} {row : StepRun} {old new : StepAttempt}
      (hunresolved : unresolvedAmong row (v.stepAttempts step.id) = some old)
      (hattempts : v'.attempts = v.attempts.put new) (hkey : new.key = old.key)
      (hinFlight : v'.inFlight = v.inFlight)
      (hsame : old = b → new.status = .manualIntervention ∧ new.errorClass = b.errorClass) :
      ∃ b', v'.Spent b' ∧ b'.key = b.key ∧ (b'.status = .running → b.status = .running) := by
    obtain ⟨hold, hid⟩ := RunRecord.mem_stepAttempts.mp (unresolvedAmong_spec hunresolved).1
    have hfutures : ∀ f ∈ v'.inFlight, ¬ f.2.IsFor b := hinFlight ▸ hb.unanswered
    by_cases heq : old = b
    · subst heq
      obtain ⟨hstatus, hclass⟩ := hsame rfl
      refine ⟨new, ⟨hb.last.of_key_eq ?_ hkey.symm fun c hc => ?_, by simp [hstatus],
        hclass ▸ hb.errorClass, fun f hf hfor => hfutures f hf (hfor.of_key_eq hkey.symm)⟩, hkey,
        by simp [hstatus]⟩
      · exact hattempts ▸ KeyedTable.mem_put.mpr (Or.inl rfl)
      · rcases KeyedTable.mem_put.mp (hattempts ▸ hc) with rfl | ⟨hc, _⟩
        · exact ⟨old, hold, hkey.symm⟩
        · exact ⟨c, hc, rfl⟩
    · obtain ⟨_, hstepId, hattemptNo, hphase⟩ := StepAttempt.key_eq_iff.mp hkey
      refine elsewhere hattempts (fun hsame => heq ?_) hfutures fun hstep hkind => ?_
      · exact v.attempts.eq_of_key_eq hold hb.last.mem (hkey.symm.trans hsame)
      · rw [hattemptNo]
        exact hb.last.greatest old hold (hstepId.symm.trans hstep) (hphase.symm.trans hkind)
  cases h with
  | forget => exact same rfl (List.nil_sublist _)
  | forwardStarted _ _ _ _ hnext _ hfutures => exact started hnext rfl hfutures rfl
  | compensationStarted _ _ _ _ hnext hfutures => exact started hnext rfl hfutures rfl
  | forwardFinished _ hsource _ _ _ hattempt => exact finished hsource hattempt rfl rfl rfl
  | compensationFinished _ hsource hattempt => exact finished hsource hattempt rfl rfl rfl
  | @recoveredApplied _ step _ _ _ _ answers _ _ instant _ hstep _ hunresolved _ hprobe =>
      refine recovered hunresolved rfl rfl rfl fun hsame => ?_
      obtain ⟨_, hid⟩ := RunRecord.mem_stepAttempts.mp (unresolvedAmong_spec hunresolved).1
      rw [hsame, hnone.probe_eq hstep (hsame ▸ hid.symm)] at hprobe
      simp at hprobe
  | @recoveredNotApplied step _ _ _ _ answers instant _ hstep _ hunresolved _ hprobe =>
      refine recovered hunresolved rfl rfl rfl fun hsame => ?_
      obtain ⟨_, hid⟩ := RunRecord.mem_stepAttempts.mp (unresolvedAmong_spec hunresolved).1
      rw [hsame, hnone.probe_eq hstep (hsame ▸ hid.symm)] at hprobe
      simp at hprobe
  | recoveredManual _ _ hunresolved =>
      exact recovered hunresolved rfl rfl rfl fun hsame => ⟨rfl, hsame ▸ rfl⟩
  | _ => exact same rfl (List.Sublist.refl _)

/-- An attempt with a result that has been followed by another one is left as it is. -/
theorem RunMove.kept_of_not_last (h : RunMove cfg v cause v') (hsound : v.Sound)
    (hlogged : v.Logged) (hanswered : v.Answered) (ha : a ∈ v.attempts.rows)
    (hclass : a.errorClass.isSome) (hnot : ¬ v.Last a) : a ∈ v'.attempts.rows := by
  have put {old new : StepAttempt} (hold : old ∈ v.attempts.rows) (hne : old ≠ a)
      (hkey : new.key = old.key) : a ∈ (v.attempts.put new).rows :=
    KeyedTable.mem_put.mpr (Or.inr ⟨ha, fun hsame =>
      hne (v.attempts.eq_of_key_eq hold ha (hkey.symm.trans hsame.symm))⟩)
  have finished {outcome : ExecutionOutcome} {phase : ToolExecutionPhase} {old : StepAttempt}
      {futures : List (ℕ × ToolExecutionContext)} (hsource : v.Outstanding outcome phase futures)
      (hfound : v.findAttempt outcome.stepId outcome.attemptNo = some old) : old ≠ a := by
    rintro rfl
    rcases hsource.finds hsound hfound with ⟨f, hf, hfor, _⟩ | ⟨hrunning, _⟩
    · exact hanswered.alone old ha hclass f hf hfor
    · exact hanswered.ended old ha hclass hrunning
  have recovered {id : String} {row : StepRun} {old : StepAttempt}
      (hunresolved : unresolvedAmong row (v.stepAttempts id) = some old) :
      old ∈ v.attempts.rows ∧ old ≠ a := by
    have hlast := hlogged.last_unresolved hunresolved
    exact ⟨hlast.mem, fun heq => hnot (heq ▸ hlast)⟩
  cases h with
  | forwardStarted _ _ _ _ hnext | compensationStarted _ _ _ _ hnext =>
      exact KeyedTable.mem_put.mpr (Or.inr ⟨ha, hnext.key_ne ha⟩)
  | forwardFinished _ hsource _ _ _ hattempt | compensationFinished _ hsource hattempt =>
      exact put (RunRecord.findAttempt_eq_some hattempt).1 (finished hsource hattempt) rfl
  | recoveredApplied _ _ hunresolved | recoveredNotApplied _ _ hunresolved
  | recoveredManual _ _ hunresolved =>
      exact put (recovered hunresolved).1 (recovered hunresolved).2 rfl
  | _ => exact ha

theorem RunMove.unprobed (h : RunMove cfg v cause v') (hsound : v.Sound) (hlogged : v.Logged)
    (hanswered : v.Answered) (hv : v.Unprobed cfg) : v'.Unprobed cfg where
  effective x hx hnone hstatus := by
    rcases h.notApplied_origin hx hstatus with ⟨a, ha, hkey, hnotApplied⟩ |
      ⟨step, hstep, a, ha, _, answers, instant, hid, hkey, _, hprobe⟩
    · exact hv.effective a ha (hnone.of_key_eq hkey h.definition_eq.symm) hnotApplied
    · have hnoneA : v.NotIdempotent cfg a := hnone.of_key_eq hkey h.definition_eq.symm
      have hstepId := (StepAttempt.key_eq_iff.mp hkey).2.1
      rw [hnoneA.probe_eq hstep (hid.trans hstepId.symm)] at hprobe
      simp at hprobe
  earlier x hx hnone hnot := by
    have failed {a : StepAttempt} (ha : v.FailedRetryably a) : v'.FailedRetryably a := by
      refine ⟨ha.status, ha.errorClass, ?_⟩
      rw [h.definition_eq]
      exact ha.bound
    have followed {a : StepAttempt} (ha : a ∈ v.attempts.rows) (hkey : a.key = x.key)
        (hnotLast : ¬ v.Last a) : v'.FailedRetryably x := by
      have hfailed := hv.earlier a ha (hnone.of_key_eq hkey h.definition_eq.symm) hnotLast
      have hkept := h.kept_of_not_last hsound hlogged hanswered ha
        (by simp [hfailed.errorClass]) hnotLast
      obtain rfl := v'.attempts.eq_of_key_eq hkept hx hkey
      exact failed hfailed
    -- Without a start, the last attempts stay the last.
    have unstarted {a : StepAttempt} (ha : a ∈ v.attempts.rows) (hkey : a.key = x.key)
        (hold : ∀ b ∈ v'.attempts.rows, ∃ c ∈ v.attempts.rows, c.key = b.key) :
        v'.FailedRetryably x :=
      followed ha hkey fun hlast => hnot (hlast.of_key_eq hx hkey hold)
    rcases h.attempts_cases with hsame | ⟨id, kind, attempt, hcause, hnext, hput, _⟩ |
      ⟨old, new, hold, hkey, _, hput⟩
    · exact unstarted (hsame ▸ hx) rfl fun b hb => ⟨b, hsame ▸ hb, rfl⟩
    · subst hcause
      have hnew : ∀ b ∈ v.attempts.rows, b.stepId = attempt.stepId → b.phase = attempt.phase →
          b.attemptNo < attempt.attemptNo := by
        intro b hb hstepId hphase
        rw [hnext.attemptNo]
        exact lt_nextAttemptNo (RunRecord.mem_stepAttempts.mpr
          ⟨hb, hstepId.trans hnext.stepId⟩) (hphase.trans hnext.phase)
      rcases KeyedTable.mem_put.mp (hput ▸ hx) with rfl | ⟨hx', _⟩
      · refine absurd ⟨hx, fun b hb hstepId hphase => ?_⟩ hnot
        rcases KeyedTable.mem_put.mp (hput ▸ hb) with rfl | ⟨hb, _⟩
        · exact le_refl _
        · exact (hnew b hb hstepId hphase).le
      · by_cases hlast : v.Last x
        · by_cases hsame : attempt.stepId = x.stepId ∧ attempt.phase = x.phase
          · have hretriable : v.Retriable x := not_not.mp fun hnot =>
              h.not_start_of_last hsound hlogged hlast hnot hsame
            rcases hretriable with hstatus | ⟨hfailed, _⟩
            · exact absurd hstatus
                (hv.effective x hx' (hnone.of_key_eq rfl h.definition_eq.symm))
            · exact failed hfailed
          · refine absurd ⟨hx, fun b hb hstepId hphase => ?_⟩ hnot
            rcases KeyedTable.mem_put.mp (hput ▸ hb) with rfl | ⟨hb, _⟩
            · exact absurd ⟨hstepId, hphase⟩ hsame
            · exact hlast.greatest b hb hstepId hphase
        · exact followed hx' rfl hlast
    · obtain ⟨a, ha, hkeyA⟩ : ∃ a ∈ v.attempts.rows, a.key = x.key := by
        rcases KeyedTable.mem_put.mp (hput ▸ hx) with rfl | ⟨hx, _⟩
        · exact ⟨old, hold, hkey⟩
        · exact ⟨x, hx, rfl⟩
      refine unstarted ha hkeyA fun b hb => ?_
      rcases KeyedTable.mem_put.mp (hput ▸ hb) with rfl | ⟨hb, _⟩
      · exact ⟨old, hold, hkey⟩
      · exact ⟨b, hb, rfl⟩

/-- An attempt whose result is recorded as unknown cannot be retried. -/
theorem RunView.Answered.spent (hv : v.Answered) (hunprobed : v.Unprobed cfg)
    (hb : b ∈ v.attempts.rows) (hnone : v.NotIdempotent cfg b)
    (hclass : b.errorClass = some .resultUnknown) : v.Spent b where
  last := by
    by_contra hnot
    have := (hunprobed.earlier b hb hnone hnot).errorClass
    simp [hclass] at this
  status := hunprobed.effective b hb hnone
  errorClass := by simp [hclass]
  unanswered := hv.alone b hb (by simp [hclass])

end

/-! ## Results that are lost with the process -/

section

variable {cfg : Deployment} {cause : Cause} {v v' : RunView} {attempt b : StepAttempt}

/-- No attempt of a step is started while one of them runs. -/
theorem RunMove.not_start_of_running (h : RunMove cfg v (.start attempt) v') (hsound : v.Sound)
    (hlogged : v.Logged) (hb : b ∈ v.attempts.rows) (hrunning : b.status = .running) :
    attempt.stepId ≠ b.stepId := by
  intro hstepId
  have hlast := hlogged.finished b hb hrunning
  have hother := h.not_start_of_last hsound hlogged hlast fun hretriable =>
    hretriable.not_running hrunning
  cases h with
  | forwardStarted _ hrun _ _ hnext =>
      cases hphase : b.phase with
      | forward => exact hother ⟨hstepId, hnext.phase.trans hphase.symm⟩
      | probe => exact hsound.phases b hb hphase
      | compensation =>
          -- a run with a compensation does not go forward again
          have hstate := (hsound.undoing ⟨b, hb, hphase⟩).state
          rcases hrun with ⟨hrun, _⟩ | ⟨hrun, _⟩ <;> simp [hrun] at hstate
  | compensationStarted _ hquiet => exact (hquiet.attempts b hb).1 hrunning

theorem RunMove.inFlight_of_outcome {outcome : ExecutionOutcome}
    (h : RunMove cfg v (.outcome outcome) v') : v'.inFlight.Sublist v.inFlight := by
  cases h with
  | forwardFinished _ hsource | compensationFinished _ hsource => exact hsource.sublist

end

/-- A dispatch that has an answer has started its attempt. -/
theorem Shared.move_of_dispatch {cfg : Deployment} {s : Shared} (hs : s.WellFormed)
    {prepared : PreparedAttempt} {submitFails answer : Bool}
    (hstartable : ∀ v, s.view prepared.attempt.runId = some v → v.Startable cfg prepared)
    (h : (s.dispatch prepared submitFails).1 = .ok answer) :
    ∃ v v', s.view prepared.attempt.runId = some v ∧ v.Startable cfg prepared ∧
      RunMove cfg v (.start prepared.attempt) v' := by
  unfold Shared.dispatch Shared.inStore at h
  cases htransact : s.store.transact (commitAttemptStarted prepared.attempt) with
  | error e => simp [htransact] at h
  | ok result =>
      obtain ⟨v, v', hv, _, hstarted⟩ := (commitAttemptStarted_turned hs hstartable htransact).own
      have hview := view_of_record hv
      exact ⟨_, _, hview, hstartable _ hview, .of_started hstarted (hstartable _ hview) .notSubmitted⟩

namespace World

variable {cfg : Deployment} {w : World} {runId stepId : String}

/-- The process does not come back with the failure to submit a request of the step. -/
def Disowns (w : World) (runId stepId : String) : Prop :=
  (∃ last, Prog.Paced coordinatorMay last w.thread ∧ ∀ prepared,
    last = some ⟨.dispatch prepared, .ok false⟩ →
      ¬ (prepared.context.runId = runId ∧ prepared.context.stepId = stepId)) ∨
    ∃ last, Prog.Paced recoveryMay last w.thread

/-- An idle process does not. -/
theorem disowns_of_idle {result : Except Error Unit} (h : w.thread = .ret result) :
    w.Disowns runId stepId := by
  refine Or.inl ⟨none, ?_, by simp⟩
  rw [h]
  trivial

theorem Disowns.call {α : Type} {activity : Activity α} (h : w.Disowns runId stepId)
    (hactivity : activity.Keeps coordinatorMay ∨ activity.Keeps recoveryMay) :
    (w.call activity).Disowns runId stepId := by
  unfold World.call
  split
  · rcases hactivity with hkeeps | hkeeps
    · exact Or.inl ⟨none, Routine.Paced.map (hkeeps none), by simp⟩
    · exact Or.inr ⟨none, Routine.Paced.map (hkeeps none)⟩
  · exact h

/-- While an attempt of the step runs, none is dispatched. -/
theorem Disowns.proceed (h : w.Disowns runId stepId) (hw : w.Good cfg) {v : RunView}
    (hv : w.shared.view runId = some v) (hlogged : v.Logged) {b : StepAttempt}
    (hb : b ∈ v.attempts.rows) (hid : b.stepId = stepId) (hrunning : b.status = .running)
    (inputs : Inputs) : (w.proceed cfg inputs).Disowns runId stepId := by
  unfold World.proceed
  split
  case h_1 => exact h
  case h_2 op k hthread =>
    rcases h with ⟨last, hpaced, _⟩ | ⟨last, hpaced⟩ <;> rw [hthread] at hpaced
    · refine Or.inl ⟨_, hpaced.2 _, fun prepared hlast => ?_⟩
      rintro ⟨hrunId, hstepId⟩
      injection Option.some.inj hlast with hop hanswer
      subst hop
      have hguarded := hw.guarded
      rw [hthread] at hguarded
      obtain ⟨henabled, _⟩ := hguarded w.shared (.refl _) hw.wellFormed
      obtain ⟨v', _, hv', hstartable, hmove⟩ :=
        Shared.move_of_dispatch hw.wellFormed henabled (eq_of_heq hanswer)
      rw [← hstartable.runId, hrunId] at hv'
      obtain rfl := Option.some.inj (hv.symm.trans hv')
      exact hmove.not_start_of_running (hw.wellFormed.sound _ v hv) hlogged hb hrunning
        (hstartable.context.stepId.symm.trans (hstepId.trans hid.symm))
    · exact Or.inr ⟨_, hpaced.2 _⟩

/-- What records an outcome has its request in flight, records nothing, or is a failed
submission. -/
theorem request_of_cause {action : Action} {outcome : ExecutionOutcome}
    (h : w.cause action = .outcome outcome) :
    (∃ f ∈ w.shared.inFlight outcome.runId, f.2.stepId = outcome.stepId ∧
      f.2.attemptNumber = outcome.attemptNo) ∨
    (w.step cfg action).shared.store = w.shared.store ∨
    ∃ prepared errorClass k, w.thread = .call (.persistSubmissionFailure prepared errorClass) k ∧
      prepared.context.runId = outcome.runId ∧ prepared.context.stepId = outcome.stepId := by
  -- a future whose outcome is not persisted is in flight
  have requested {id : ℕ} {owned : OwnedFuture} (hfind : w.shared.findOwned id = some owned)
      (hpersisted : ¬ owned.outcomePersisted) (hof : outcome.Of owned.context) :
      ∃ f ∈ w.shared.inFlight outcome.runId, f.2.stepId = outcome.stepId ∧
        f.2.attemptNumber = outcome.attemptNo :=
    ⟨_, Shared.mem_inFlight.mpr ⟨owned, (Shared.findOwned_eq_some hfind).1,
      ⟨hof.runId.symm, by simpa using hpersisted⟩, rfl⟩, hof.stepId.symm, hof.attemptNo.symm⟩
  unfold World.cause at h
  split at h <;> try simp at h
  rename_i inputs
  split at h
  · simp at h
  case h_2 op k hthread =>
    have hshared : (w.step cfg (.proceed inputs)).shared = (exec cfg op inputs w.shared).2 := by
      simp [World.step, World.proceed, hthread]
    cases op with
    | collectFuture id now =>
        simp only [Op.cause, Shared.collectCause] at h
        split at h
        case h_1 => simp at h
        case h_2 owned hfind =>
          cases hfound : Shared.collectedOutcome owned now with
          | none => simp [hfound] at h
          | some collected =>
              obtain rfl : collected = outcome := by simpa [hfound] using h
              -- a future collected once more only tells its outcome again
              by_cases hpersisted : owned.outcomePersisted
              · refine Or.inr (Or.inl ?_)
                rw [hshared]
                simp only [exec, Shared.collectFuture, hfind, hpersisted, if_true]
                split <;> rfl
              · exact Or.inl (requested hfind hpersisted (Shared.collectedOutcome_of hfound))
    | closeFuture id =>
        simp only [Op.cause, Shared.closeCause] at h
        split at h
        case h_1 => simp at h
        case h_2 owned hfind =>
          obtain rfl := Cause.outcome.inj h
          by_cases hpersisted : owned.outcomePersisted
          · refine Or.inr (Or.inl ?_)
            rw [hshared]
            simp only [exec, Shared.closeFuture, hfind, hpersisted, if_true]
          · exact Or.inl (requested hfind hpersisted (Shared.closingOutcome_of ..))
    | persistSubmissionFailure prepared errorClass =>
        obtain rfl := Cause.outcome.inj h
        exact Or.inr (Or.inr ⟨prepared, errorClass, k, hthread, rfl, rfl⟩)
    | _ => simp [Op.cause] at h

/-- The last attempt of the key is one of a tool that is not idempotent, and nothing that
can still happen lets another one follow. -/
def Spent (w : World) (cfg : Deployment) (runId : String) (b : StepAttempt) : Prop :=
  ∃ v last, w.shared.view runId = some v ∧ v.NotIdempotent cfg last ∧ v.Spent last ∧
    last.key = b.key ∧ (last.status = .running → w.Disowns runId b.stepId)

theorem Spent.step {permitted : World → Action → Prop} (h : Reachable cfg permitted w)
    {b : StepAttempt} (hw : w.Spent cfg runId b) (action : Action) :
    (w.step cfg action).Spent cfg runId b := by
  obtain ⟨v, last, hv, hnone, hspent, hkey, hdisowns⟩ := hw
  have hsound := h.sound hv
  have hlogged := h.logged hv
  have hid := (StepAttempt.key_eq_iff.mp hkey).2.1
  -- The process still has nothing to record for an attempt that runs.
  have hlater (hrunning : last.status = .running) : (w.step cfg action).Disowns runId b.stepId := by
    have hdisowns := hdisowns hrunning
    cases action with
    | runOnce => exact hdisowns.call (Or.inl (runOnce_keeps cfg))
    | recover => exact hdisowns.call (Or.inr recoverNonterminalRuns_keeps)
    | close wait => exact hdisowns.call (Or.inl (close_keeps wait))
    | proceed inputs =>
        exact hdisowns.proceed h.good hv hlogged hspent.last.mem hid hrunning inputs
    | crash => exact disowns_of_idle rfl
    | _ => exact hdisowns
  obtain ⟨v', hv', hstep⟩ := (h.good.step action).2.views runId v hv
  suffices ∃ last', v'.NotIdempotent cfg last' ∧ v'.Spent last' ∧ last'.key = last.key ∧
      (last'.status = .running → last.status = .running) by
    obtain ⟨last', hnone', hspent', hkey', hrunning⟩ := this
    exact ⟨v', last', hv', hnone', hspent', hkey'.trans hkey, fun h => hlater (hrunning h)⟩
  rcases hstep with rfl | hmove
  · exact ⟨last, hnone, hspent, rfl, id⟩
  by_cases hrecorded : ∃ outcome, w.cause action = .outcome outcome ∧ last.status = .running ∧
      outcome.stepId = last.stepId ∧ ¬ ∃ f ∈ v.inFlight, f.2.stepId = outcome.stepId ∧
        f.2.attemptNumber = outcome.attemptNo
  · obtain ⟨outcome, hcause, hrunning, hstepId, hnot⟩ := hrecorded
    rw [hcause] at hmove
    have hrunId : outcome.runId = runId := by
      have hrunId := MemoryStore.runId_of_record (Shared.view_eq_some_iff.mp hv).1
      cases hmove with
      | forwardFinished hsame | compensationFinished hsame => exact hsame.trans hrunId
    rcases request_of_cause hcause with hrequest | hstore |
      ⟨prepared, errorClass, k, hthread, hprepared, hpreparedId⟩
    · rw [hrunId, ← (Shared.view_eq_some_iff.mp hv).2.1] at hrequest
      exact absurd hrequest hnot
    · -- nothing has been recorded
      have hattempts : v'.attempts = v.attempts := by
        have hrecord := (Shared.view_eq_some_iff.mp hv).1
        have hrecord' := (Shared.view_eq_some_iff.mp hv').1
        rw [hstore, hrecord] at hrecord'
        rw [Option.some.inj hrecord']
      refine ⟨last, hnone.of_key_eq rfl hmove.definition_eq, ⟨?_, hspent.status,
        hspent.errorClass, fun f hf => hspent.unanswered f (hmove.inFlight_of_outcome.subset hf)⟩,
        rfl, id⟩
      exact hspent.last.of_key_eq (hattempts ▸ hspent.last.mem) rfl
        fun c hc => ⟨c, hattempts ▸ hc, rfl⟩
    · -- the process would have to hold a failed submission of the step
      exfalso
      rcases hdisowns hrunning with ⟨before, hpaced, hother⟩ | ⟨before, hpaced⟩ <;>
        rw [hthread] at hpaced
      · exact hother prepared hpaced.1 ⟨hprepared.trans hrunId,
          hpreparedId.trans (hstepId.trans hid)⟩
      · exact hpaced.1
  · obtain ⟨last', hspent', hkey', hrunning⟩ := hmove.spent hsound hlogged hnone hspent
      fun outcome hcause hstepId _ hrunning => not_not.mp fun hnot =>
        hrecorded ⟨outcome, hcause, hrunning, hstepId, hnot⟩
    exact ⟨last', hnone.of_key_eq hkey' hmove.definition_eq, hspent', hkey', hrunning⟩

theorem Spent.after {b : StepAttempt} (further : List Action) :
    ∀ {w : World}, Reachable cfg (fun _ _ => True) w → w.Spent cfg runId b →
      (further.foldl (World.step cfg) w).Spent cfg runId b := by
  induction further with
  | nil => intro w _ hw; exact hw
  | cons action rest ih => intro w h hw; exact ih (.step action h trivial) (hw.step h action)

/-- No attempt follows. -/
theorem Spent.not_starts {permitted : World → Action → Prop} (h : Reachable cfg permitted w)
    {b attempt : StepAttempt} (hw : w.Spent cfg runId b) {action : Action}
    (hstarts : w.Starts (w.step cfg action) attempt) :
    ¬ (attempt.runId = runId ∧ attempt.stepId = b.stepId ∧ attempt.phase = b.phase) := by
  rintro ⟨rfl, hstepId, hphase⟩
  obtain ⟨v, last, hv, _, hspent, hkey, _⟩ := hw
  obtain ⟨v', _, hv', _, _, hmove, _, hsound⟩ := h.move_of_starts hstarts
  obtain rfl := Option.some.inj (hv.symm.trans hv')
  obtain ⟨_, hid, _, hkind⟩ := StepAttempt.key_eq_iff.mp hkey
  exact hmove.not_start_of_last hsound (h.logged hv) hspent.last hspent.not_retriable
    ⟨hstepId.trans hid.symm, hphase.trans hkind.symm⟩

/-- The result of the attempt is recorded as unknown, or lost: the attempt runs, with
neither a request in flight nor a call that could still record something for it. -/
def ResultUnknown (w : World) (v : RunView) (a : StepAttempt) : Prop :=
  a.errorClass = some .resultUnknown ∨
    (a.status = .running ∧ (∀ f ∈ v.inFlight, ¬ f.2.IsFor a) ∧ ∃ result, w.thread = .ret result)

end World

theorem RunView.answered_of_initial {v : RunView} (h : v.Initial) (hdrained : v.inFlight = []) :
    v.Answered where
  single := by simp [hdrained]
  alone := by simp [h.attempts]
  ended := by simp [h.attempts]

theorem RunView.unprobed_of_initial {v : RunView} (cfg : Deployment) (h : v.Initial) :
    v.Unprobed cfg where
  effective := by simp [h.attempts]
  earlier := by simp [h.attempts]

namespace Reachable

variable {cfg : Deployment} {permitted : World → Action → Prop} {w : World} {runId : String}
  {v : RunView}

theorem answered (h : Reachable cfg permitted w) (hv : w.shared.view runId = some v) :
    v.Answered :=
  h.view_induction (P := RunView.Answered)
    (fun _ hinitial hdrained _ => RunView.answered_of_initial hinitial hdrained)
    (fun _ _ _ _ _ _ _ _ hsound _ hmove hanswered => hmove.answered hanswered hsound) hv

theorem unprobed (h : Reachable cfg permitted w) (hv : w.shared.view runId = some v) :
    v.Unprobed cfg :=
  h.view_induction (P := fun v => v.Unprobed cfg)
    (fun _ hinitial _ _ => RunView.unprobed_of_initial cfg hinitial)
    (fun _ _ _ _ _ hreachable _ hv hsound _ hmove hunprobed =>
      hmove.unprobed hsound (hreachable.logged hv) (hreachable.answered hv) hunprobed) hv

/-- An attempt whose result is unknown stays the last one. -/
theorem spent (h : Reachable cfg permitted w) (hv : w.shared.view runId = some v)
    {a : StepAttempt} (ha : a ∈ v.attempts.rows) (hnone : v.NotIdempotent cfg a)
    (hunknown : w.ResultUnknown v a) : w.Spent cfg runId a := by
  have hanswered := h.answered hv
  rcases hunknown with hclass | ⟨hrunning, hnoRequest, result, hidle⟩
  · refine ⟨v, a, hv, hnone, hanswered.spent (h.unprobed hv) ha hnone hclass, rfl, fun hrunning => ?_⟩
    exact absurd hrunning (hanswered.ended a ha (by simp [hclass]))
  · refine ⟨v, a, hv, hnone, ⟨(h.logged hv).finished a ha hrunning, by simp [hrunning],
      fun hclass => ?_, hnoRequest⟩, rfl, fun _ => World.disowns_of_idle hidle⟩
    exact hanswered.ended a ha (by simp [hclass]) hrunning

end Reachable

/-- Whatever the definitions, tools, clock, crashes and probes are: an attempt that is not
the first of its step and phase follows one that failed retryably with attempts left and
its backoff over, or that is not applied; an attempt becomes not applied only by a recovery
whose probe found nothing; and with a tool that is not idempotent, no attempt is ever
started after one whose result is unknown, as that of every running attempt is after a
crash. -/
theorem no_blind_retry (cfg : Deployment) (instant : Timestamp) (actions : List Action) :
    let w := World.after cfg instant actions
    (∀ action attempt, w.Starts (w.step cfg action) attempt → attempt.attemptNo = 1 ∨
      ∃ v a, w.shared.view attempt.runId = some v ∧ v.Last a ∧ a.stepId = attempt.stepId ∧
        a.phase = attempt.phase ∧ a.attemptNo + 1 = attempt.attemptNo ∧ v.Retriable a) ∧
    (∀ action runId v v', w.shared.view runId = some v →
      (w.step cfg action).shared.view runId = some v' → ∀ b ∈ v'.attempts.rows,
        b.status = .notApplied → (∃ a ∈ v.attempts.rows, a.key = b.key ∧ a.status = .notApplied) ∨
          ∃ step ∈ v.definition.steps, ∃ a ∈ v.attempts.rows, ∃ expected answers instant,
            step.id = b.stepId ∧ a.key = b.key ∧
              w.cause action = .recovery v.run.runId step.id expected answers instant ∧
              probe cfg answers step a instant = .ok (some .notFound)) ∧
    (∀ runId v, w.shared.view runId = some v → ∀ a ∈ v.attempts.rows, v.NotIdempotent cfg a →
      w.ResultUnknown v a → ∀ (further : List Action) (action : Action) (attempt : StepAttempt),
        let later := further.foldl (World.step cfg) w
        later.Starts (later.step cfg action) attempt →
          ¬ (attempt.runId = runId ∧ attempt.stepId = a.stepId ∧ attempt.phase = a.phase)) ∧
    ∀ runId v, (w.step cfg .crash).shared.view runId = some v → ∀ a ∈ v.attempts.rows,
      a.status = .running → (w.step cfg .crash).ResultUnknown v a := by
  intro w
  have h : Reachable cfg (fun _ _ => True) w := reachable_after instant actions
  refine ⟨fun action attempt hstarts => ?_, fun action runId v v' hv hv' b hb hstatus => ?_,
    fun runId v hv a ha hnone hunknown further action attempt => ?_,
    fun runId v hv a _ hrunning => Or.inr ⟨hrunning, ?_, _, rfl⟩⟩
  · obtain ⟨v, v', hv, _, _, hmove, _, hsound⟩ := h.move_of_starts hstarts
    refine (hmove.retriable_of_start hsound (h.logged hv)).imp_right ?_
    rintro ⟨a, ha⟩
    exact ⟨v, a, hv, ha⟩
  · -- only the move of a recovery makes an attempt not applied
    obtain ⟨v'', hv'', hstep⟩ := (h.good.step action).2.views runId v hv
    obtain rfl := Option.some.inj (hv''.symm.trans hv')
    rcases hstep with rfl | hmove
    · exact Or.inl ⟨b, hb, rfl, hstatus⟩
    · exact hmove.notApplied_origin hb hstatus
  · intro later hstarts
    have hlater : Reachable cfg (fun _ _ => True) later := h.foldl further
    exact ((h.spent hv ha hnone hunknown).after further h).not_starts hlater hstarts
  · -- after a crash nothing is in flight, and no call is under way
    have hview : (w.step cfg .crash).shared.view runId =
        (w.shared.view runId).map fun v => { v with inFlight := [] } := Shared.crash_view runId
    rw [hview, Option.map_eq_some_iff] at hv
    obtain ⟨_, _, rfl⟩ := hv
    simp

end ChangePilot
