import ChangePilot.System.Runs

/-!
# The attempts of a run

The attempts of each step and phase are numbered from one without a gap, only the
last of them can be running, and a step is ready only when its last attempt allows
another one.  `Logged` holds whatever happens; `Tracked`, which ties running attempts
to steps and requests in flight, needs that recovery is at work only while nothing
is in flight.
-/

namespace ChangePilot

/-! ## The last attempt of a phase -/

namespace RunRecord

/-- The attempt with the greatest number of its step and phase. -/
structure Last (v : RunRecord) (a : StepAttempt) : Prop where
  mem : a ∈ v.attempts.rows
  greatest : ∀ b ∈ v.attempts.rows, b.stepId = a.stepId → b.phase = a.phase →
    b.attemptNo ≤ a.attemptNo

/-- A failure that may be followed by another attempt, if the step's bound allows it. -/
structure FailedRetryably (v : RunRecord) (a : StepAttempt) : Prop where
  status : a.status = .failed
  errorClass : a.errorClass = some .retryable
  bound : ∃ step ∈ v.definition.steps, step.id = a.stepId ∧
    a.attemptNo < step.retry.maxAttempts

theorem Keyed.last_unique {v : RunRecord} (hkeyed : v.Keyed) {a b : StepAttempt}
    (ha : v.Last a) (hb : v.Last b) (hstepId : a.stepId = b.stepId) (hphase : a.phase = b.phase) :
    a = b :=
  hkeyed.attempt_eq ha.mem hb.mem hstepId
    (Nat.le_antisymm (hb.greatest a ha.mem hstepId hphase)
      (ha.greatest b hb.mem hstepId.symm hphase.symm)) hphase

/-- A write to an attempt of another step or phase does not make an attempt the last. -/
theorem Last.of_put {v w : RunRecord} {a new : StepAttempt} (h : w.Last a)
    (hattempts : w.attempts = v.attempts.put new)
    (hother : new.stepId ≠ a.stepId ∨ new.phase ≠ a.phase) : v.Last a := by
  have hne {b : StepAttempt} (hstepId : b.stepId = a.stepId) (hphase : b.phase = a.phase) :
      b.key ≠ new.key := fun hkey => by
    obtain ⟨_, hstep, _, hkind⟩ := StepAttempt.key_eq_iff.mp hkey
    rcases hother with h | h
    · exact h (hstep.symm.trans hstepId)
    · exact h (hkind.symm.trans hphase)
  have hmem := h.mem
  rw [hattempts, KeyedTable.mem_put] at hmem
  refine ⟨?_, fun b hb hstepId hphase => h.greatest b ?_ hstepId hphase⟩
  · rcases hmem with rfl | ⟨hmem, _⟩
    · simp at hother
    · exact hmem
  · rw [hattempts]
    exact KeyedTable.mem_put.mpr (Or.inr ⟨hb, hne hstepId hphase⟩)

/-- An attempt that stays under its key stays the last, if no attempt is new. -/
theorem Last.of_key_eq {v w : RunRecord} {a x : StepAttempt} (h : v.Last a)
    (hx : x ∈ w.attempts.rows) (hkey : a.key = x.key)
    (hold : ∀ b ∈ w.attempts.rows, ∃ c ∈ v.attempts.rows, c.key = b.key) : w.Last x := by
  obtain ⟨_, hid, hno, hkind⟩ := StepAttempt.key_eq_iff.mp hkey
  refine ⟨hx, fun b hb hstepId hphase => ?_⟩
  obtain ⟨c, hc, hsame⟩ := hold b hb
  obtain ⟨_, hcId, hcNo, hcKind⟩ := StepAttempt.key_eq_iff.mp hsame
  rw [← hcNo, ← hno]
  exact h.greatest c hc (hcId.trans (hstepId.trans hid.symm))
    (hcKind.trans (hphase.trans hkind.symm))

/-- No attempt that is there has the key of a new one. -/
theorem IsNext.key_ne {v : RunRecord} {id : String} {kind : ToolExecutionPhase}
    {attempt a : StepAttempt} (h : v.IsNext id kind attempt) (ha : a ∈ v.attempts.rows) :
    a.key ≠ attempt.key := by
  intro hkey
  obtain ⟨_, hstepId, hno, hphase⟩ := StepAttempt.key_eq_iff.mp hkey
  have hlt := lt_nextAttemptNo (mem_stepAttempts.mpr ⟨ha, hstepId.trans h.stepId⟩)
    (hphase.trans h.phase)
  rw [← h.attemptNo, hno] at hlt
  exact lt_irrefl _ hlt

/-- The last row that a step's attempts are listed with has the greatest key. -/
theorem key_le_getLast {v : RunRecord} {id : String} {a last : StepAttempt}
    (hlast : (v.stepAttempts id).getLast? = some last) (ha : a ∈ v.stepAttempts id) :
    a.key ≤ last.key := by
  obtain ⟨front, hsplit⟩ := List.getLast?_eq_some_iff.mp hlast
  have hsorted : (v.stepAttempts id).Pairwise fun x y => x.key < y.key :=
    v.attempts.sorted.sublist List.filter_sublist
  rw [hsplit] at ha hsorted
  rcases List.mem_append.mp ha with ha | ha
  · exact ((List.pairwise_append.mp hsorted).2.2 a ha last List.mem_cons_self).le
  · rw [List.mem_singleton.mp ha]

theorem Keyed.attemptNo_le_getLast {v : RunRecord} (hkeyed : v.Keyed) {id : String}
    {a last : StepAttempt} (hlast : (v.stepAttempts id).getLast? = some last)
    (ha : a ∈ v.stepAttempts id) : a.attemptNo ≤ last.attemptNo := by
  have hle := key_le_getLast hlast ha
  obtain ⟨ha, hid⟩ := mem_stepAttempts.mp ha
  obtain ⟨hmem, hlastId⟩ := mem_stepAttempts.mp (List.mem_of_getLast? hlast)
  simp only [StepAttempt.key, attemptKey, hkeyed.attempt a ha, hkeyed.attempt last hmem, hid,
    hlastId, Prod.Lex.toLex_le_toLex, lt_self_iff_false, true_and, false_or] at hle
  rcases hle with hlt | ⟨heq, _⟩
  · exact hlt.le
  · exact heq.le

end RunRecord

/-- Another attempt may follow: the attempt is known to have had no effect, or has
failed in a way that allows a retry, whose instant has come. -/
def RunView.Retriable (v : RunView) (a : StepAttempt) : Prop :=
  a.status = .notApplied ∨
    (v.FailedRetryably a ∧ ∃ instant, a.nextAttemptAt = some instant ∧ instant ≤ v.latest)

theorem RunView.Retriable.not_running {v : RunView} {a : StepAttempt} (h : v.Retriable a) :
    a.status ≠ .running := by
  rcases h with h | ⟨h, _⟩
  · simp [h]
  · simp [h.status]

/-- A new attempt has the number after the greatest one of its phase, if there is one. -/
theorem nextAttemptNo_cases (attempts : List StepAttempt) (phase : ToolExecutionPhase) :
    nextAttemptNo attempts phase = 1 ∨
      ∃ a ∈ attempts, a.phase = phase ∧ a.attemptNo + 1 = nextAttemptNo attempts phase := by
  have hmax (numbers : List ℕ) : ∀ start : ℕ, numbers.foldl max start = start ∨
      numbers.foldl max start ∈ numbers := by
    induction numbers with
    | nil => simp
    | cons n rest ih =>
        intro start
        rcases ih (max start n) with h | h
        · rcases max_choice start n with hmax | hmax
          · exact Or.inl (by rw [List.foldl_cons, h, hmax])
          · exact Or.inr (by rw [List.foldl_cons, h, hmax]; exact List.mem_cons_self)
        · exact Or.inr (List.mem_cons_of_mem _ h)
  rcases hmax ((attempts.filter fun attempt => attempt.phase = phase).map StepAttempt.attemptNo) 0
    with h | h
  · exact Or.inl (by rw [nextAttemptNo, h])
  · obtain ⟨a, ha, hno⟩ := List.mem_map.mp h
    obtain ⟨ha, hphase⟩ := List.mem_filter.mp ha
    exact Or.inr ⟨a, ha, by simpa using hphase, by rw [nextAttemptNo, ← hno]⟩

/-! ## The attempt that an outcome is written into -/

/-- An outcome is written into the attempt that its request in flight was dispatched for,
or into a running one for which nothing is in flight. -/
theorem RunView.Outstanding.finds {v : RunView} (hv : v.Sound) {outcome : ExecutionOutcome}
    {phase : ToolExecutionPhase} {futures : List (ℕ × ToolExecutionContext)}
    (h : v.Outstanding outcome phase futures) {a : StepAttempt}
    (ha : v.findAttempt outcome.stepId outcome.attemptNo = some a) :
    (∃ f ∈ v.inFlight, f.2.IsFor a ∧ futures = v.inFlight.filter fun g => g.1 ≠ f.1) ∨
      (a.status = .running ∧ futures = v.inFlight ∧ ∀ f ∈ v.inFlight, ¬ f.2.IsFor a) := by
  obtain ⟨hmem, haId, haNo⟩ := RunRecord.findAttempt_eq_some ha
  -- The attempt of the phase with the number is the one that is found.
  have found {b : StepAttempt} (hb : b ∈ v.attempts.rows) (hid : b.stepId = outcome.stepId)
      (hno : b.attemptNo = outcome.attemptNo) (hopen : v.Undoing → b.phase = .compensation) :
      a = b := by
    cases hphase : b.phase with
    | compensation => exact RunRecord.findAttempt_compensation hv.keyed ha hb hid hno hphase
    | probe => exact absurd hphase (hv.phases b hb)
    | forward =>
        refine hv.keyed.attempt_eq hmem hb (haId.trans hid.symm) (haNo.trans hno.symm) ?_
        cases hkind : a.phase with
        | forward => exact hphase.symm
        | probe => exact absurd hkind (hv.phases a hmem)
        | compensation =>
            -- once there is a compensation, no forward outcome is outstanding
            have := hopen (hv.undoing ⟨a, hmem, hkind⟩)
            simp [hphase] at this
  cases h with
  | @inFlight id context hfuture hstepId hattemptNo _ =>
      obtain ⟨b, hb, hfor⟩ := hv.inFlight _ hfuture
      obtain rfl := found hb (hfor.stepId.symm.trans hstepId)
        (hfor.attemptNo.symm.trans hattemptNo)
        fun hundoing => hfor.phase.symm.trans (hundoing.inFlight _ hfuture)
      exact Or.inl ⟨_, hfuture, hfor, rfl⟩
  | @notSubmitted b hb hrunning hstepId hattemptNo _ hnone =>
      obtain rfl := found hb hstepId hattemptNo fun hundoing => by
        cases hcase : b.phase with
        | compensation => rfl
        | forward => exact absurd hrunning (hundoing.attempts b hb hcase)
        | probe => exact absurd hcase (hv.phases b hb)
      exact Or.inr ⟨hrunning, rfl,
        fun f hf hfor => hnone f hf ⟨hfor.stepId, hfor.attemptNo, hfor.phase⟩⟩

/-! ## What moves do to the attempts -/

section

variable {cfg : Deployment} {cause : Cause} {v v' : RunView}

/-- The attempts stay, one is started, or one that is there ends. -/
theorem RunMove.attempts_cases (h : RunMove cfg v cause v') :
    v'.attempts = v.attempts ∨
      (∃ id kind attempt, cause = .start attempt ∧ v.IsNext id kind attempt ∧
        v'.attempts = v.attempts.put attempt ∧
          ((kind = .forward ∧ v.stateOf id = some .ready) ∨ (kind = .compensation ∧ v.Quiet))) ∨
      ∃ old new, old ∈ v.attempts.rows ∧ old.key = new.key ∧ new.status ≠ .running ∧
        v'.attempts = v.attempts.put new := by
  cases h with
  | @forwardStarted _ step _ attempt _ _ _ _ hrow hready hnext =>
      exact Or.inr (Or.inl ⟨step.id, .forward, attempt, rfl, hnext, rfl,
        Or.inl ⟨rfl, RunRecord.stateOf_eq_some_iff.mpr ⟨_, hrow, hready⟩⟩⟩)
  | @compensationStarted step _ attempt _ _ _ hquiet _ _ hnext =>
      exact Or.inr (Or.inl ⟨step.id, .compensation, attempt, rfl, hnext, rfl,
        Or.inr ⟨rfl, hquiet⟩⟩)
  | @forwardFinished _ _ _ _ outcome _ _ _ _ _ _ _ _ _ _ _ _ hattempt =>
      refine Or.inr (Or.inr ⟨_, _, (RunRecord.findAttempt_eq_some hattempt).1, ?_, ?_, rfl⟩)
      · rfl
      · rcases outcome.status_eq with h | h <;> simp [StepAttempt.completedWith, h]
  | @compensationFinished _ _ outcome _ _ _ _ _ _ _ hattempt =>
      refine Or.inr (Or.inr ⟨_, _, (RunRecord.findAttempt_eq_some hattempt).1, ?_, ?_, rfl⟩)
      · rfl
      · rcases outcome.status_eq with h | h <;> simp [StepAttempt.completedWith, h]
  | recoveredApplied _ _ hunresolved =>
      obtain ⟨ha, _⟩ := RunRecord.mem_stepAttempts.mp (unresolvedAmong_spec hunresolved).1
      refine Or.inr (Or.inr ⟨_, _, ha, ?_, ?_, rfl⟩)
      · rfl
      · simp [StepAttempt.applied]
  | recoveredNotApplied _ _ hunresolved | recoveredManual _ _ hunresolved =>
      obtain ⟨ha, _⟩ := RunRecord.mem_stepAttempts.mp (unresolvedAmong_spec hunresolved).1
      refine Or.inr (Or.inr ⟨_, _, ha, ?_, ?_, rfl⟩)
      · rfl
      · simp [StepAttempt.closed]
  | _ => exact Or.inl rfl

theorem RunMove.latest_le (h : RunMove cfg v cause v') : v.latest ≤ v'.latest := by
  cases h with
  | tick hlatest => exact hlatest
  | _ => exact le_refl _

theorem RunMove.retriable (h : RunMove cfg v cause v') {a : StepAttempt} (ha : v.Retriable a) :
    v'.Retriable a := by
  refine ha.imp_right fun ⟨hfailed, instant, hinstant, hle⟩ =>
    ⟨⟨hfailed.status, hfailed.errorClass, ?_⟩, instant, hinstant, hle.trans h.latest_le⟩
  rw [h.definition_eq]
  exact hfailed.bound

end

/-! ## The log -/

structure RunView.Logged (v : RunView) : Prop where
  positive : ∀ a ∈ v.attempts.rows, 1 ≤ a.attemptNo
  dense : ∀ a ∈ v.attempts.rows, ∀ n, 1 ≤ n → n ≤ a.attemptNo →
    ∃ b ∈ v.attempts.rows, b.stepId = a.stepId ∧ b.phase = a.phase ∧ b.attemptNo = n
  finished : ∀ a ∈ v.attempts.rows, a.status = .running → v.Last a
  scheduled : ∀ a ∈ v.attempts.rows, ∀ instant, a.nextAttemptAt = some instant →
    a.phase = .forward ∧ v.FailedRetryably a
  ready : ∀ a, v.Last a → a.phase = .forward → v.stateOf a.stepId = some .ready → v.Retriable a
  compensating : v.run.state = .compensating → ∀ a ∈ v.attempts.rows, a.phase = .compensation →
    a.status ∈ [.running, .success, .succeeded, .notApplied]

section

variable {cfg : Deployment} {cause : Cause} {v v' : RunView}

theorem RunMove.positive (h : RunMove cfg v cause v') (hv : v.Logged) :
    ∀ x ∈ v'.attempts.rows, 1 ≤ x.attemptNo := by
  intro x hx
  rcases h.attempts_cases with hsame | ⟨_, _, attempt, _, hnext, hput, _⟩ |
    ⟨old, new, hold, hkey, _, hput⟩
  · exact hv.positive x (hsame ▸ hx)
  · rcases KeyedTable.mem_put.mp (hput ▸ hx) with rfl | ⟨hx, _⟩
    · rw [hnext.attemptNo, nextAttemptNo]
      omega
    · exact hv.positive x hx
  · rcases KeyedTable.mem_put.mp (hput ▸ hx) with rfl | ⟨hx, _⟩
    · rw [← (StepAttempt.key_eq_iff.mp hkey).2.2.1]
      exact hv.positive old hold
    · exact hv.positive x hx

/-- A new attempt comes right after those there are. -/
theorem RunMove.dense (h : RunMove cfg v cause v') (hv : v.Logged) :
    ∀ x ∈ v'.attempts.rows, ∀ n, 1 ≤ n → n ≤ x.attemptNo →
      ∃ b ∈ v'.attempts.rows, b.stepId = x.stepId ∧ b.phase = x.phase ∧ b.attemptNo = n := by
  intro x hx n hpos hle
  -- An attempt that was there is still there under its key.
  have kept {a : StepAttempt} (ha : a ∈ v.attempts.rows) (hle : n ≤ a.attemptNo) :
      ∃ b ∈ v'.attempts.rows, b.stepId = a.stepId ∧ b.phase = a.phase ∧ b.attemptNo = n := by
    obtain ⟨b, hb, hstepId, hphase, hno⟩ := hv.dense a ha n hpos hle
    obtain ⟨c, hc, hkey⟩ := h.attempt_kept hb
    obtain ⟨_, hstep, hnumber, hkind⟩ := StepAttempt.key_eq_iff.mp hkey
    exact ⟨c, hc, hstep.trans hstepId, hkind.trans hphase, hnumber.trans hno⟩
  rcases h.attempts_cases with hsame | ⟨id, kind, attempt, _, hnext, hput, _⟩ |
    ⟨old, new, hold, hkey, _, hput⟩
  · exact kept (hsame ▸ hx) hle
  · rcases KeyedTable.mem_put.mp (hput ▸ hx) with rfl | ⟨hx, _⟩
    · rcases hle.eq_or_lt with rfl | hlt
      · exact ⟨x, hput ▸ KeyedTable.mem_put.mpr (Or.inl rfl), rfl, rfl, rfl⟩
      rw [hnext.attemptNo] at hlt
      rcases nextAttemptNo_cases (v.stepAttempts id) kind with hone | ⟨a, ha, hphase, hno⟩
      · omega
      · obtain ⟨ha, hid⟩ := RunRecord.mem_stepAttempts.mp ha
        rw [hnext.stepId, hnext.phase, ← hid, ← hphase]
        exact kept ha (by omega)
    · exact kept hx hle
  · rcases KeyedTable.mem_put.mp (hput ▸ hx) with rfl | ⟨hx, _⟩
    · obtain ⟨_, hstepId, hno, hphase⟩ := StepAttempt.key_eq_iff.mp hkey
      rw [← hstepId, ← hphase]
      exact kept hold (hno ▸ hle)
    · exact kept hx hle

/-- Before an attempt is started, no attempt of its step and phase runs. -/
theorem RunView.Logged.not_running_of_next (hv : v.Logged) {id : String}
    {kind : ToolExecutionPhase}
    (hfree : (kind = .forward ∧ v.stateOf id = some .ready) ∨ (kind = .compensation ∧ v.Quiet))
    {a : StepAttempt} (ha : a ∈ v.attempts.rows) (hid : a.stepId = id) (hphase : a.phase = kind) :
    a.status ≠ .running := by
  intro hrunning
  rcases hfree with ⟨rfl, hready⟩ | ⟨_, hquiet⟩
  · exact (hv.ready a (hv.finished a ha hrunning) hphase (hid ▸ hready)).not_running hrunning
  · exact (hquiet.attempts a ha).1 hrunning

theorem RunMove.finished (h : RunMove cfg v cause v') (hv : v.Logged) :
    ∀ x ∈ v'.attempts.rows, x.status = .running → v'.Last x := by
  intro x hx hrunning
  refine ⟨hx, fun b hb hstepId hphase => ?_⟩
  rcases h.attempts_cases with hsame | ⟨id, kind, attempt, _, hnext, hput, hfree⟩ |
    ⟨old, new, hold, hkey, hended, hput⟩
  · exact (hv.finished x (hsame ▸ hx) hrunning).greatest b (hsame ▸ hb) hstepId hphase
  · rcases KeyedTable.mem_put.mp (hput ▸ hx) with rfl | ⟨hx, _⟩
    · rcases KeyedTable.mem_put.mp (hput ▸ hb) with rfl | ⟨hb, _⟩
      · exact le_refl _
      · rw [hnext.attemptNo]
        exact (lt_nextAttemptNo (RunRecord.mem_stepAttempts.mpr
          ⟨hb, hstepId.trans hnext.stepId⟩) (hphase.trans hnext.phase)).le
    · rcases KeyedTable.mem_put.mp (hput ▸ hb) with rfl | ⟨hb, _⟩
      · exact absurd hrunning (hv.not_running_of_next hfree hx (hstepId.symm.trans hnext.stepId)
          (hphase.symm.trans hnext.phase))
      · exact (hv.finished x hx hrunning).greatest b hb hstepId hphase
  · rcases KeyedTable.mem_put.mp (hput ▸ hx) with rfl | ⟨hx, _⟩
    · exact absurd hrunning hended
    · rcases KeyedTable.mem_put.mp (hput ▸ hb) with rfl | ⟨hb, _⟩
      · obtain ⟨_, hstep, hno, hkind⟩ := StepAttempt.key_eq_iff.mp hkey
        rw [← hno]
        exact (hv.finished x hx hrunning).greatest old hold (hstep.trans hstepId)
          (hkind.trans hphase)
      · exact (hv.finished x hx hrunning).greatest b hb hstepId hphase

/-- Only a retryable failure schedules another attempt. -/
theorem RunMove.scheduled (h : RunMove cfg v cause v') (hv : v.Sound) (hlogged : v.Logged) :
    ∀ x ∈ v'.attempts.rows, ∀ instant, x.nextAttemptAt = some instant →
      x.phase = .forward ∧ v'.FailedRetryably x := by
  intro x hx instant hinstant
  have old (hx : x ∈ v.attempts.rows) : x.phase = .forward ∧ v'.FailedRetryably x := by
    obtain ⟨hphase, hfailed⟩ := hlogged.scheduled x hx instant hinstant
    refine ⟨hphase, hfailed.status, hfailed.errorClass, ?_⟩
    rw [h.definition_eq]
    exact hfailed.bound
  cases h with
  | forwardStarted _ _ _ _ hnext =>
      rcases KeyedTable.mem_put.mp hx with rfl | ⟨hx, _⟩
      · simp [hnext.nextAttemptAt] at hinstant
      · exact old hx
  | compensationStarted _ _ _ _ hnext =>
      rcases KeyedTable.mem_put.mp hx with rfl | ⟨hx, _⟩
      · simp [hnext.nextAttemptAt] at hinstant
      · exact old hx
  | @forwardFinished _ step _ attempt outcome _ _ _ _ _ _ _ _ _ hstep hstepId _ hattempt hphase
      hresult =>
      rcases KeyedTable.mem_put.mp hx with rfl | ⟨hx, _⟩
      · obtain ⟨ha, hid, hno⟩ := RunRecord.findAttempt_eq_some hattempt
        -- the attempt is a forward one, for probes are not attempts
        have hforward : attempt.phase = .forward := by
          cases hcase : attempt.phase with
          | forward => rfl
          | probe => exact absurd hcase (hv.phases attempt ha)
          | compensation => exact absurd hcase hphase
        have hsome : _ = some instant := hinstant
        -- only a retryable failure with attempts left has a next instant
        rcases forwardResult_spec hresult with ⟨_, _, hnone⟩ |
          ⟨hfailed, ⟨hclass, hbound, _, _⟩ | ⟨_, _, hnone⟩ | ⟨_, _, hnone⟩⟩
        · exact absurd (hnone.symm.trans hsome) (by simp)
        · exact ⟨hforward, hfailed, hclass, step, hstep, hstepId.trans hid.symm,
            hno.symm ▸ hbound⟩
        · exact absurd (hnone.symm.trans hsome) (by simp)
        · exact absurd (hnone.symm.trans hsome) (by simp)
      · exact old hx
  | compensationFinished =>
      rcases KeyedTable.mem_put.mp hx with rfl | ⟨hx, _⟩
      · simp [StepAttempt.completedWith] at hinstant
      · exact old hx
  | recoveredApplied =>
      rcases KeyedTable.mem_put.mp hx with rfl | ⟨hx, _⟩
      · simp [StepAttempt.applied] at hinstant
      · exact old hx
  | recoveredNotApplied | recoveredManual =>
      rcases KeyedTable.mem_put.mp hx with rfl | ⟨hx, _⟩
      · simp [StepAttempt.closed] at hinstant
      · exact old hx
  | _ => exact old hx

/-- What a step changed by its outcome is not. -/
theorem RunRecord.finishedStep_state (v : RunRecord) (row : StepRun) (nextState : StepState)
    (idempotencyKey : String) : (v.finishedStep row nextState idempotencyKey).state = nextState := by
  unfold RunRecord.finishedStep
  split <;> rfl

theorem forwardResult_ne_ready {retry : RetryPolicy} {outcome : ExecutionOutcome}
    {completedAt : Timestamp} {nextState : StepState} {nextAttemptAt : Option Timestamp}
    (h : forwardResult retry outcome completedAt = .ok (nextState, nextAttemptAt)) :
    nextState ≠ .ready ∧ nextState ≠ .running := by
  rcases forwardResult_spec h with ⟨_, rfl, _⟩ | ⟨_, ⟨_, _, rfl, _⟩ | ⟨_, rfl, _⟩ | ⟨_, rfl, _⟩⟩ <;>
    simp

/-- The unresolved attempt is the last one of its step and phase. -/
theorem RunView.Logged.last_unresolved (hv : v.Logged) {id : String} {row : StepRun}
    {a : StepAttempt} (h : unresolvedAmong row (v.stepAttempts id) = some a) : v.Last a := by
  obtain ⟨hmem, ⟨hrunning, _⟩ | ⟨_, _, hgreatest⟩⟩ := unresolvedAmong_spec h
  · exact hv.finished a (RunRecord.mem_stepAttempts.mp hmem).1 hrunning
  · obtain ⟨ha, hid⟩ := RunRecord.mem_stepAttempts.mp hmem
    refine ⟨ha, fun b hb hstepId hphase => ?_⟩
    have hle := hgreatest b (RunRecord.mem_stepAttempts.mpr ⟨hb, hstepId.trans hid⟩)
    simp only [StepAttempt.recoveryKey, Prod.Lex.toLex_le_toLex, hphase, le_refl, and_true] at hle
    omega

/-- A step becomes ready only when its last attempt allows another one. -/
theorem RunMove.ready (h : RunMove cfg v cause v') (hv : v.Sound) (hlogged : v.Logged)
    (hkeyed : v'.Keyed) {x : StepAttempt} (hx : v'.Last x) (hphase : x.phase = .forward)
    (hready : v'.stateOf x.stepId = some .ready) : v'.Retriable x := by
  have old (hlast : v.Last x) (hsame : v'.steps x.stepId = v.steps x.stepId) : v'.Retriable x := by
    rw [RunRecord.stateOf, hsame] at hready
    exact h.retriable (hlogged.ready x hlast hphase hready)
  -- A change of another step and of an attempt of that step.
  have elsewhere {id : String} {changed : StepRun} {new : StepAttempt}
      (hsteps : v'.steps = Function.update v.steps id (some changed))
      (hattempts : v'.attempts = v.attempts.put new) (hid : new.stepId = id)
      (hchanged : changed.state ≠ .ready) : v'.Retriable x := by
    have hne : x.stepId ≠ id := by
      intro hsame
      rw [RunRecord.stateOf, hsteps, hsame, Function.update_self] at hready
      exact hchanged (Option.some.inj hready)
    refine old (hx.of_put hattempts (Or.inl (hid ▸ hne.symm))) ?_
    rw [hsteps, Function.update_of_ne hne]
  -- A change of an attempt of another phase.
  have otherPhase {new : StepAttempt} (hsteps : v'.steps = v.steps)
      (hattempts : v'.attempts = v.attempts.put new) (hnew : new.phase ≠ .forward) :
      v'.Retriable x :=
    old (hx.of_put hattempts (Or.inr (hphase ▸ hnew))) (by rw [hsteps])
  cases h with
  | retriesDue _ hsteps =>
      have hlast : v.Last x := ⟨hx.mem, hx.greatest⟩
      rcases hsteps x.stepId with hsame | ⟨row, last, next, _, _, hgetLast, hnext, hdue, _⟩
      · exact old hlast hsame
      · obtain ⟨hmem, hid⟩ := RunRecord.mem_stepAttempts.mp (List.mem_of_getLast? hgetLast)
        obtain ⟨hforward, hfailed⟩ := hlogged.scheduled last hmem next hnext
        have hle := hv.keyed.attemptNo_le_getLast hgetLast
          (RunRecord.mem_stepAttempts.mpr ⟨hlast.mem, rfl⟩)
        have hge := hlast.greatest last hmem hid (hforward.trans hphase.symm)
        obtain rfl : x = last := hv.keyed.attempt_eq hlast.mem hmem hid.symm
          (Nat.le_antisymm hle hge) (hphase.trans hforward.symm)
        exact Or.inr ⟨⟨hfailed.status, hfailed.errorClass, hfailed.bound⟩, next, hnext, hdue⟩
  | dependenciesReady _ hsteps =>
      rcases hsteps x.stepId with hsame | ⟨_, _, row, _, hrow, hpending, _, _⟩
      · exact old ⟨hx.mem, hx.greatest⟩ hsame
      · -- a pending step has no attempts yet
        obtain ⟨state, hstate, hbegun⟩ := hv.started x hx.mem
        rw [RunRecord.stateOf, hrow] at hstate
        exact absurd (hpending ▸ (Option.some.inj hstate).symm) hbegun
  | forwardStarted _ _ _ _ hnext => exact elsewhere rfl rfl hnext.stepId (by simp)
  | compensationStarted _ _ _ _ hnext => exact otherPhase rfl rfl (by simp [hnext.phase])
  | forwardFinished _ _ _ _ _ hattempt _ hresult =>
      exact elsewhere rfl rfl (RunRecord.findAttempt_eq_some hattempt).2.1 <| by
        rw [RunRecord.finishedStep_state]
        exact (forwardResult_ne_ready hresult).1
  | compensationFinished _ _ _ hcompensation =>
      exact otherPhase rfl rfl (by simp [StepAttempt.completedWith, hcompensation])
  | recoveredApplied _ hrow hunresolved _ _ _ hchanged =>
      obtain ⟨_, hid⟩ := RunRecord.mem_stepAttempts.mp (unresolvedAmong_spec hunresolved).1
      rcases hchanged with ⟨_, _, rfl⟩ | ⟨hnot, rfl⟩
      · exact elsewhere rfl rfl hid (by simp)
      · exact otherPhase (by rw [← hrow, Function.update_eq_self]) rfl hnot
  | recoveredManual _ hrow hunresolved _ _ _ hchanged =>
      obtain ⟨_, hid⟩ := RunRecord.mem_stepAttempts.mp (unresolvedAmong_spec hunresolved).1
      rcases hchanged with ⟨_, _, rfl⟩ | ⟨hnot, rfl⟩
      · exact elsewhere rfl rfl hid (by simp)
      · exact otherPhase (by rw [← hrow, Function.update_eq_self]) rfl hnot
  | @recoveredNotApplied step _ _ attempt _ _ instant _ _ hrow hunresolved _ _ hchanged =>
      obtain ⟨ha, hid⟩ := RunRecord.mem_stepAttempts.mp (unresolvedAmong_spec hunresolved).1
      rcases hchanged with ⟨hforward, _, rfl⟩ | ⟨hnot, rfl⟩
      · by_cases hsame : x.stepId = step.id
        · -- the unresolved attempt is the last one, and is closed
          have hmem := hx.mem
          have hge := hx.greatest _ (KeyedTable.mem_put.mpr (Or.inl rfl)) (hid.trans hsame.symm)
            (hforward.trans hphase.symm)
          rcases KeyedTable.mem_put.mp hmem with rfl | ⟨hmem, hkey⟩
          · exact Or.inl rfl
          · have hle := (hlogged.last_unresolved hunresolved).greatest x hmem
              (hsame.trans hid.symm) (hphase.trans hforward.symm)
            exact absurd (StepAttempt.key_eq_iff.mpr ⟨(hv.keyed.attempt x hmem).trans
              (hv.keyed.attempt attempt ha).symm, hsame.trans hid.symm, Nat.le_antisymm hle hge,
              hphase.trans hforward.symm⟩) hkey
        · exact old (hx.of_put rfl (Or.inl fun h => hsame (h.symm.trans hid)))
            (Function.update_of_ne hsame _ _)
      · exact otherPhase (by rw [← hrow, Function.update_eq_self]) rfl hnot
  | _ => exact old ⟨hx.mem, hx.greatest⟩ rfl

/-- While a run is compensating, no compensation has failed. -/
theorem RunMove.compensating (h : RunMove cfg v cause v') (hv : v.Sound) (hlogged : v.Logged)
    (hstate : v'.run.state = .compensating) :
    ∀ x ∈ v'.attempts.rows, x.phase = .compensation →
      x.status ∈ [.running, .success, .succeeded, .notApplied] := by
  intro x hx hphase
  -- the compensations that were there have not failed
  have old (hx : x ∈ v.attempts.rows) : x.status ∈ [.running, .success, .succeeded, .notApplied] := by
    refine hlogged.compensating ?_ x hx hphase
    have hundoing := (hv.undoing ⟨x, hx, hphase⟩).state
    rcases h.run_state with hsame | htransition
    · rwa [← hsame]
    · -- with a compensation there, the run was compensating already
      rw [hstate] at htransition
      revert hundoing htransition
      cases v.run.state <;> simp [runTransitions]
  cases h with
  | forwardStarted _ _ _ _ hnext | compensationStarted _ _ _ _ hnext =>
      rcases KeyedTable.mem_put.mp hx with rfl | ⟨hx, _⟩
      · simp [hnext.status]
      · exact old hx
  | forwardFinished _ _ _ _ _ _ hnot =>
      rcases KeyedTable.mem_put.mp hx with rfl | ⟨hx, _⟩
      · exact absurd hphase hnot
      · exact old hx
  | compensationFinished _ _ _ _ hsettles =>
      rcases KeyedTable.mem_put.mp hx with rfl | ⟨hx, _⟩
      · cases hsettles with
        | remaining hsuccess => simp [StepAttempt.completedWith, hsuccess]
        | completed | failed => simp at hstate
      · exact old hx
  | recoveredApplied =>
      rcases KeyedTable.mem_put.mp hx with rfl | ⟨hx, _⟩
      · simp [StepAttempt.applied]
      · exact old hx
  | recoveredNotApplied =>
      rcases KeyedTable.mem_put.mp hx with rfl | ⟨hx, _⟩
      · simp [StepAttempt.closed]
      · exact old hx
  | recoveredManual _ _ _ _ _ hrun =>
      -- a run that is handed over does not compensate
      rcases hrun with rfl | rfl <;> simp at hstate
  | _ => exact old hx

theorem RunMove.logged (h : RunMove cfg v cause v') (hv : v.Sound) (hkeyed : v'.Keyed)
    (hlogged : v.Logged) : v'.Logged where
  positive := h.positive hlogged
  dense := h.dense hlogged
  finished := h.finished hlogged
  scheduled := h.scheduled hv hlogged
  ready _ := h.ready hv hlogged hkeyed
  compensating := h.compensating hv hlogged

end

theorem RunView.logged_of_initial {v : RunView} (h : v.Initial) : v.Logged where
  positive := by simp [h.attempts]
  dense := by simp [h.attempts]
  finished := by simp [h.attempts]
  scheduled := by simp [h.attempts]
  ready a hlast := by simpa [h.attempts] using hlast.mem
  compensating := by simp [h.attempts]

theorem Reachable.logged {cfg : Deployment} {permitted : World → Action → Prop} {w : World}
    (h : Reachable cfg permitted w) {runId : String} {v : RunView}
    (hv : w.shared.view runId = some v) : v.Logged :=
  h.view_induction (P := RunView.Logged) (fun _ hinitial _ _ => RunView.logged_of_initial hinitial)
    (fun _ _ _ _ _ _ _ _ hsound hsound' hmove => hmove.logged hsound hsound'.keyed) hv

end ChangePilot
