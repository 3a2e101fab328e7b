import ChangePilot.System.AttemptLog
import ChangePilot.System.Sample
import ChangePilot.System.Threads

/-!
# The attempt log is consistent

With one coordinator and recovery at restart, running attempts, running steps and
requests in flight belong together, so that an outcome ends exactly the attempt that its
request was dispatched for.
-/

namespace ChangePilot

structure RunView.Tracked (v : RunView) : Prop where
  running : ∀ id, v.stateOf id = some .running →
    ∃ a ∈ v.attempts.rows, a.stepId = id ∧ a.phase = .forward ∧ a.status = .running
  active : ∀ a ∈ v.attempts.rows, a.phase = .forward → a.status = .running →
    v.stateOf a.stepId = some .running
  single : ∀ a ∈ v.attempts.rows, ∀ b ∈ v.attempts.rows, a.phase = .compensation →
    b.phase = .compensation → a.status = .running → b.status = .running → a = b
  requested : ∀ future ∈ v.inFlight, ∃ a ∈ v.attempts.rows, future.2.IsFor a ∧ a.status = .running
  distinct : ∀ f ∈ v.inFlight, ∀ g ∈ v.inFlight, f.2.stepId = g.2.stepId →
    f.2.attemptNumber = g.2.attemptNumber → f = g

/-! ## Attempts that end -/

section

variable {cfg : Deployment} {cause : Cause} {v v' : RunView}

/-- Steps that are running stay so, and nothing else changes. -/
theorem RunView.Tracked.of_same (hv : v.Tracked) (hattempts : v'.attempts = v.attempts)
    (hinFlight : v'.inFlight.Sublist v.inFlight)
    (hsteps : ∀ id, v'.stateOf id = some .running ↔ v.stateOf id = some .running) :
    v'.Tracked where
  running id h := by rw [hattempts]; exact hv.running id ((hsteps id).mp h)
  active a ha hphase hstatus := (hsteps _).mpr (hv.active a (hattempts ▸ ha) hphase hstatus)
  single := hattempts ▸ hv.single
  requested f hf := by rw [hattempts]; exact hv.requested f (hinFlight.subset hf)
  distinct f hf g hg := hv.distinct f (hinFlight.subset hf) g (hinFlight.subset hg)

/-- The last attempt of its step and phase ends, with its request and its step. -/
theorem RunView.Tracked.ended (hv : v.Tracked) (hsound : v.Sound) (hlogged : v.Logged)
    {old new : StepAttempt} (hlast : v.Last old) (hattempts : v'.attempts = v.attempts.put new)
    (hkey : old.key = new.key) (hstatus : new.status ≠ .running)
    (hinFlight : v'.inFlight.Sublist v.inFlight)
    (hrequests : ∀ f ∈ v'.inFlight, ¬ f.2.IsFor old)
    (hsteps : ∀ id, v'.stateOf id = some .running ↔
      v.stateOf id = some .running ∧ ¬ (old.phase = .forward ∧ id = old.stepId)) :
    v'.Tracked := by
  -- A running attempt after the move is another one, which was there before.
  have others {x : StepAttempt} (hx : x ∈ v'.attempts.rows) (hrunning : x.status = .running) :
      x ∈ v.attempts.rows ∧ x ≠ old := by
    rcases KeyedTable.mem_put.mp (hattempts ▸ hx) with rfl | ⟨hx, hne⟩
    · exact absurd hrunning hstatus
    · exact ⟨hx, fun h => hne (h ▸ hkey)⟩
  have kept {x : StepAttempt} (hx : x ∈ v.attempts.rows) (hne : x ≠ old) :
      x ∈ v'.attempts.rows := by
    rw [hattempts]
    exact KeyedTable.mem_put.mpr (Or.inr ⟨hx, fun h =>
      hne (v.attempts.eq_of_key_eq hx hlast.mem (h.trans hkey.symm))⟩)
  refine ⟨fun id h => ?_, fun x hx hphase hrunning => ?_, fun x hx y hy hxp hyp hxs hys => ?_,
    fun f hf => ?_, fun f hf g hg => hv.distinct f (hinFlight.subset hf) g (hinFlight.subset hg)⟩
  · obtain ⟨hstate, hnot⟩ := (hsteps id).mp h
    obtain ⟨a, ha, hid, hphase, hrunning⟩ := hv.running id hstate
    refine ⟨a, kept ha ?_, hid, hphase, hrunning⟩
    rintro rfl
    exact hnot ⟨hphase, hid.symm⟩
  · obtain ⟨hold, hne⟩ := others hx hrunning
    refine (hsteps _).mpr ⟨hv.active x hold hphase hrunning, fun ⟨hforward, hid⟩ => hne ?_⟩
    exact hsound.keyed.last_unique (hlogged.finished x hold hrunning) hlast hid
      (hphase.trans hforward.symm)
  · exact hv.single x (others hx hxs).1 y (others hy hys).1 hxp hyp hxs hys
  · obtain ⟨a, ha, hfor, hrunning⟩ := hv.requested f (hinFlight.subset hf)
    refine ⟨a, kept ha ?_, hfor, hrunning⟩
    rintro rfl
    exact hrequests f hf hfor

/-- An outcome finds the attempt that its request was dispatched for, which runs. -/
theorem RunView.Tracked.finds (hv : v.Tracked) (hsound : v.Sound) {outcome : ExecutionOutcome}
    {phase : ToolExecutionPhase} {futures : List (ℕ × ToolExecutionContext)}
    (hsource : v.Outstanding outcome phase futures) {a : StepAttempt}
    (ha : v.findAttempt outcome.stepId outcome.attemptNo = some a) :
    a.status = .running ∧ ((∃ f ∈ v.inFlight, f.2.IsFor a ∧
      futures = v.inFlight.filter fun g => g.1 ≠ f.1) ∨ futures = v.inFlight) ∧
        ∀ f ∈ futures, ¬ f.2.IsFor a := by
  rcases hsource.finds hsound ha with ⟨f, hf, hfor, rfl⟩ | ⟨hrunning, rfl, hnone⟩
  · obtain ⟨b, hb, hforB, hrunning⟩ := hv.requested f hf
    obtain rfl : a = b := hsound.keyed.attempt_eq (RunRecord.findAttempt_eq_some ha).1 hb
      (hfor.stepId.symm.trans hforB.stepId) (hfor.attemptNo.symm.trans hforB.attemptNo)
      (hfor.phase.symm.trans hforB.phase)
    refine ⟨hrunning, Or.inl ⟨f, hf, hfor, rfl⟩, fun g hg hforG => ?_⟩
    obtain ⟨hg, hne⟩ := List.mem_filter.mp hg
    have hsame := hv.distinct g hg f hf (hforG.stepId.trans hfor.stepId.symm)
      (hforG.attemptNo.trans hfor.attemptNo.symm)
    simp [hsame] at hne
  · exact ⟨hrunning, Or.inr rfl, hnone⟩

/-- A new attempt is the only one of its phase that runs. -/
theorem RunMove.tracked_started (h : RunMove cfg v cause v') (hv : v.Tracked) (hsound : v.Sound)
    {attempt : StepAttempt} (hcause : cause = .start attempt) : v'.Tracked := by
  subst hcause
  cases h with
  | @forwardStarted run step row _ futures _ hstep hrun hrow hready hnext _ hfutures =>
      -- no compensation has begun in a run that still goes forward
      have hforward {a : StepAttempt} (ha : a ∈ v.attempts.rows) : a.phase = .forward := by
        cases hcase : a.phase with
        | forward => rfl
        | probe => exact absurd hcase (hsound.phases a ha)
        | compensation =>
            have hstate := (hsound.undoing ⟨a, ha, hcase⟩).state
            rcases hrun with ⟨hrun, _⟩ | ⟨hrun, _⟩ <;> simp [hrun] at hstate
      have hstate (id : String) : (Function.update v.steps step.id (some (row.moved .running)) id).map
          StepRun.state = some .running ↔ id = step.id ∨ v.stateOf id = some .running := by
        by_cases hid : id = step.id
        · simp [hid]
        · simp [hid, RunRecord.stateOf]
      refine ⟨fun id h => ?_, fun a ha hphase hrunning => ?_, fun a ha b hb hap hbp _ _ => ?_,
        fun f hf => ?_, fun f hf g hg hstepId hattemptNo => ?_⟩
      · rcases (hstate id).mp h with rfl | h
        · exact ⟨attempt, KeyedTable.mem_put.mpr (Or.inl rfl), hnext.stepId, hnext.phase,
            hnext.status⟩
        · obtain ⟨a, ha, hid, hphase, hrunning⟩ := hv.running id h
          exact ⟨a, KeyedTable.mem_put.mpr (Or.inr ⟨ha, hnext.key_ne ha⟩), hid, hphase, hrunning⟩
      · refine (hstate _).mpr ?_
        rcases KeyedTable.mem_put.mp ha with rfl | ⟨ha, _⟩
        · exact Or.inl hnext.stepId
        · exact Or.inr (hv.active a ha hphase hrunning)
      · rcases KeyedTable.mem_put.mp ha with rfl | ⟨ha, _⟩
        · simp [hnext.phase] at hap
        · simp [hforward ha] at hap
      · rcases hfutures.mem hf with hold | hnew
        · obtain ⟨a, ha, hfor, hrunning⟩ := hv.requested f hold
          exact ⟨a, KeyedTable.mem_put.mpr (Or.inr ⟨ha, hnext.key_ne ha⟩), hfor, hrunning⟩
        · exact ⟨attempt, KeyedTable.mem_put.mpr (Or.inl rfl), hnew, hnext.status⟩
      -- the new attempt has a number that no future has
      · have apart {f : ℕ × ToolExecutionContext} (hf : f ∈ v.inFlight) :
            ¬ (f.2.stepId = attempt.stepId ∧ f.2.attemptNumber = attempt.attemptNo) := by
          rintro ⟨hid, hno⟩
          obtain ⟨a, ha, hfor, _⟩ := hv.requested f hf
          exact hnext.key_ne ha (StepAttempt.key_eq_iff.mpr ⟨(hsound.keyed.attempt a ha).trans
            hnext.runId.symm, hfor.stepId.symm.trans hid, hfor.attemptNo.symm.trans hno,
            (hforward ha).trans hnext.phase.symm⟩)
        cases hfutures with
        | notSubmitted => exact hv.distinct f hf g hg hstepId hattemptNo
        | submitted _ _ hid hno _ =>
            rcases List.mem_append.mp hf with hf | hf <;> rcases List.mem_append.mp hg with hg | hg
            · exact hv.distinct f hf g hg hstepId hattemptNo
            · obtain rfl := List.mem_singleton.mp hg
              exact absurd ⟨hstepId.trans hid, hattemptNo.trans hno⟩ (apart hf)
            · obtain rfl := List.mem_singleton.mp hf
              exact absurd ⟨hstepId.symm.trans hid, hattemptNo.symm.trans hno⟩ (apart hg)
            · rw [List.mem_singleton.mp hf, List.mem_singleton.mp hg]
  | @compensationStarted step _ _ futures _ _ hquiet hdrained _ hnext hfutures =>
      -- nothing runs beside a compensation
      have idle {a : StepAttempt} (ha : a ∈ (v.attempts.put attempt).rows)
          (hrunning : a.status = .running) : a = attempt := by
        rcases KeyedTable.mem_put.mp ha with rfl | ⟨ha, _⟩
        · rfl
        · exact absurd hrunning (hquiet.attempts a ha).1
      -- nor is any future left from before
      have new {f : ℕ × ToolExecutionContext} (hf : f ∈ futures) : f.2.IsFor attempt :=
        (hfutures.mem hf).resolve_left (by simp [hdrained])
      refine ⟨fun id h => absurd h (hsound.idle hquiet id).1, fun a ha hphase hrunning => ?_,
        fun a ha b hb _ _ has hbs => (idle ha has).trans (idle hb hbs).symm,
        fun f hf => ⟨attempt, KeyedTable.mem_put.mpr (Or.inl rfl), new hf, hnext.status⟩,
        fun f hf g hg _ _ => ?_⟩
      · rw [idle ha hrunning, hnext.phase] at hphase
        exact absurd hphase (by decide)
      · cases hfutures with
        | notSubmitted => simp [hdrained] at hf
        | submitted =>
            simp only [hdrained, List.nil_append, List.mem_singleton] at hf hg
            rw [hf, hg]

theorem RunMove.tracked (h : RunMove cfg v cause v') (hv : v.Tracked) (hsound : v.Sound)
    (hlogged : v.Logged)
    (hresting : (∃ runId stepId a answers instant,
      cause = .recovery runId stepId a answers instant) → v.inFlight = []) : v'.Tracked := by
  by_cases hstart : ∃ attempt, cause = .start attempt
  · obtain ⟨attempt, hcause⟩ := hstart
    exact h.tracked_started hv hsound hcause
  -- What recovery decides about the unresolved attempt.
  have recovered {step : StepDefinition} {row changed : StepRun} {old new : StepAttempt}
      {target : StepState} (hdrained : v'.inFlight = []) (hrow : v.steps step.id = some row)
      (hunresolved : unresolvedAmong row (v.stepAttempts step.id) = some old)
      (hattempts : v'.attempts = v.attempts.put new) (hkey : old.key = new.key)
      (hstatus : new.status ≠ .running) (htarget : target ≠ .running)
      (hsteps : v'.steps = Function.update v.steps step.id (some changed))
      (hchanged : (old.phase = .forward ∧ target ∈ stepTransitions row.state ∧
          changed = row.moved target) ∨ (old.phase ≠ .forward ∧ changed = row)) : v'.Tracked := by
    have hid := (RunRecord.mem_stepAttempts.mp (unresolvedAmong_spec hunresolved).1).2
    refine hv.ended hsound hlogged (hlogged.last_unresolved hunresolved) hattempts hkey hstatus
      (by simp [hdrained]) (by simp [hdrained]) fun id => ?_
    simp only [RunRecord.stateOf, hsteps, hid]
    rcases hchanged with ⟨hforward, _, rfl⟩ | ⟨hnot, rfl⟩
    · by_cases hsame : id = step.id <;> simp [hsame, hforward, htarget]
    · rw [← hrow, Function.update_eq_self]
      simp [hnot]
  cases h with
  | tick | barrier | compensated | decided | cancelled =>
      exact hv.of_same rfl (List.Sublist.refl _) fun _ => Iff.rfl
  | forget => exact hv.of_same rfl (List.nil_sublist _) fun _ => Iff.rfl
  | retriesDue _ hsteps =>
      refine hv.of_same rfl (List.Sublist.refl _) fun id => ?_
      rcases hsteps id with hsame | ⟨row, _, _, hrow, hstate, _, _, _, hready⟩
      · simp [RunRecord.stateOf, hsame]
      · simp [RunRecord.stateOf, hready, hrow, hstate]
  | dependenciesReady _ hsteps =>
      refine hv.of_same rfl (List.Sublist.refl _) fun id => ?_
      rcases hsteps id with hsame | ⟨_, _, row, _, hrow, hstate, _, hready⟩
      · simp [RunRecord.stateOf, hsame]
      · simp [RunRecord.stateOf, hready, hrow, hstate]
  | forwardStarted | compensationStarted => exact absurd ⟨_, rfl⟩ hstart
  | @forwardFinished _ step row a outcome _ _ nextState _ _ _ _ _ hsource _ _ hrow hattempt hphase
      hresult =>
      obtain ⟨hrunning, _, hothers⟩ := hv.finds hsound hsource hattempt
      obtain ⟨ha, hid, _⟩ := RunRecord.findAttempt_eq_some hattempt
      have hforward : a.phase = .forward := by
        cases hcase : a.phase with
        | forward => rfl
        | probe => exact absurd hcase (hsound.phases a ha)
        | compensation => exact absurd hcase hphase
      refine hv.ended hsound hlogged (hlogged.finished a ha hrunning) rfl ?_ ?_
        hsource.sublist hothers fun id => ?_
      · rfl
      · rcases outcome.status_eq with h | h <;> simp [StepAttempt.completedWith, h]
      · simp only [RunRecord.stateOf, hid]
        by_cases hsame : id = outcome.stepId
        · simp [hsame, hforward, RunRecord.finishedStep_state, (forwardResult_ne_ready hresult).2]
        · simp [hsame]
  | @compensationFinished _ a outcome _ _ _ _ _ _ hsource hattempt hphase =>
      obtain ⟨hrunning, _, hothers⟩ := hv.finds hsound hsource hattempt
      refine hv.ended hsound hlogged (hlogged.finished a
        (RunRecord.findAttempt_eq_some hattempt).1 hrunning) rfl ?_ ?_
        hsource.sublist hothers fun id => ?_
      · rfl
      · rcases outcome.status_eq with h | h <;> simp [StepAttempt.completedWith, h]
      · simp [RunRecord.stateOf, hphase]
  | recoveredApplied _ hrow hunresolved _ _ _ hchanged =>
      exact recovered (hresting ⟨_, _, _, _, _, rfl⟩) hrow hunresolved rfl rfl
        (by simp [StepAttempt.applied]) (by decide) rfl hchanged
  | recoveredNotApplied _ hrow hunresolved _ _ hchanged =>
      exact recovered (hresting ⟨_, _, _, _, _, rfl⟩) hrow hunresolved rfl rfl
        (by simp [StepAttempt.closed]) (by decide) rfl hchanged
  | recoveredManual _ hrow hunresolved _ _ _ hchanged =>
      exact recovered (hresting ⟨_, _, _, _, _, rfl⟩) hrow hunresolved rfl rfl
        (by simp [StepAttempt.closed]) (by decide) rfl hchanged

/-! ## Outcomes -/

/-- The outcome ends the running attempt that its request was dispatched for, or whose
submission has failed, and the request leaves the process. -/
structure RunView.Finishes (v : RunView) (outcome : ExecutionOutcome) (a : StepAttempt)
    (v' : RunView) : Prop where
  mem : a ∈ v.attempts.rows
  stepId : a.stepId = outcome.stepId
  attemptNo : a.attemptNo = outcome.attemptNo
  running : a.status = .running
  request : (∃ f ∈ v.inFlight, f.2.IsFor a ∧ v'.inFlight = v.inFlight.filter fun g => g.1 ≠ f.1) ∨
    v'.inFlight = v.inFlight
  returned : ∀ f ∈ v'.inFlight, ¬ f.2.IsFor a
  ended : ∃ new, new.key = a.key ∧ new.status = outcome.status ∧ v'.attempts = v.attempts.put new

theorem RunMove.finishes {outcome : ExecutionOutcome} (h : RunMove cfg v (.outcome outcome) v')
    (hv : v.Tracked) (hsound : v.Sound) : ∃ a, v.Finishes outcome a v' := by
  cases h with
  | forwardFinished _ hsource _ _ _ hattempt =>
      obtain ⟨hmem, hid, hno⟩ := RunRecord.findAttempt_eq_some hattempt
      obtain ⟨hrunning, hrequest, hreturned⟩ := hv.finds hsound hsource hattempt
      refine ⟨_, hmem, hid, hno, hrunning, hrequest, hreturned, _, ?_, ?_, rfl⟩ <;> rfl
  | compensationFinished _ hsource hattempt =>
      obtain ⟨hmem, hid, hno⟩ := RunRecord.findAttempt_eq_some hattempt
      obtain ⟨hrunning, hrequest, hreturned⟩ := hv.finds hsound hsource hattempt
      refine ⟨_, hmem, hid, hno, hrunning, hrequest, hreturned, _, ?_, ?_, rfl⟩ <;> rfl

end

/-! ## The guarantee -/

theorem RunView.tracked_of_initial {v : RunView} (h : v.Initial) (hdrained : v.inFlight = []) :
    v.Tracked where
  running id hstate := by
    obtain ⟨row, hrow, hrunning⟩ := RunRecord.stateOf_eq_some_iff.mp hstate
    simp [(h.steps id row hrow).1] at hrunning
  active := by simp [h.attempts]
  single := by simp [h.attempts]
  requested := by simp [hdrained]
  distinct := by simp [hdrained]

theorem Reachable.tracked {cfg : Deployment} {w : World}
    (h : Reachable cfg World.RecoversAtRestart w) {runId : String} {v : RunView}
    (hv : w.shared.view runId = some v) : v.Tracked := by
  refine h.view_induction (P := RunView.Tracked) (fun _ hinitial hdrained _ =>
    RunView.tracked_of_initial hinitial hdrained) ?_ hv
  intro w action runId v v' hreachable _ hv hsound _ hmove htracked
  refine hmove.tracked htracked hsound (hreachable.logged hv) ?_
  rintro ⟨_, _, _, _, _, hcause⟩
  rw [(Shared.view_eq_some_iff.mp hv).2.1]
  exact hreachable.resting_of_recovery hcause runId

/-- The attempts of each step and phase are numbered from one without gap or repeat,
all but the last are finished, a step runs exactly while its last forward attempt does,
and at most one compensation runs. -/
structure RunView.LogConsistent (v : RunView) : Prop where
  numbered : ∀ a ∈ v.attempts.rows, 1 ≤ a.attemptNo ∧ ∀ n, 1 ≤ n → n ≤ a.attemptNo →
    ∃! b, b ∈ v.attempts.rows ∧ b.stepId = a.stepId ∧ b.phase = a.phase ∧ b.attemptNo = n
  finished : ∀ a ∈ v.attempts.rows, a.status = .running → v.Last a
  running : ∀ id, v.stateOf id = some .running ↔
    ∃ a, v.Last a ∧ a.stepId = id ∧ a.phase = .forward ∧ a.status = .running
  compensation : ∀ a ∈ v.attempts.rows, ∀ b ∈ v.attempts.rows, a.phase = .compensation →
    b.phase = .compensation → a.status = .running → b.status = .running → a = b

theorem RunView.Tracked.logConsistent {v : RunView} (hv : v.Tracked) (hsound : v.Sound)
    (hlogged : v.Logged) : v.LogConsistent where
  numbered a ha := by
    refine ⟨hlogged.positive a ha, fun n hpos hle => ?_⟩
    obtain ⟨b, hb, hid, hphase, hno⟩ := hlogged.dense a ha n hpos hle
    refine ⟨b, ⟨hb, hid, hphase, hno⟩, ?_⟩
    rintro c ⟨hc, hcid, hcphase, hcno⟩
    exact hsound.keyed.attempt_eq hc hb (hcid.trans hid.symm) (hcno.trans hno.symm)
      (hcphase.trans hphase.symm)
  finished := hlogged.finished
  running id := by
    constructor
    · intro hstate
      obtain ⟨a, ha, hid, hphase, hrunning⟩ := hv.running id hstate
      exact ⟨a, hlogged.finished a ha hrunning, hid, hphase, hrunning⟩
    · rintro ⟨a, hlast, rfl, hphase, hrunning⟩
      exact hv.active a hlast.mem hphase hrunning
  compensation := hv.single

/-- In every reachable state of one coordinator with recovery at restart the attempt log
of each run is consistent, and a step of the system that records an outcome ends exactly
the running attempt that the outcome is one of, or changes nothing. -/
theorem attempt_log_is_consistent {cfg : Deployment} {w : World}
    (h : Reachable cfg World.RecoversAtRestart w) {runId : String} {v : RunView}
    (hv : w.shared.view runId = some v) :
    v.LogConsistent ∧
      (∀ f ∈ v.inFlight, ∀ g ∈ v.inFlight, f.2.stepId = g.2.stepId →
        f.2.attemptNumber = g.2.attemptNumber → f = g) ∧
      ∀ action outcome v', w.cause action = .outcome outcome →
        (w.step cfg action).shared.view runId = some v' →
          v' = v ∨ ∃ a, v.Finishes outcome a v' := by
  have htracked := h.tracked hv
  refine ⟨htracked.logConsistent (h.sound hv) (h.logged hv), htracked.distinct,
    fun action outcome v' hcause hv' => ?_⟩
  obtain ⟨v'', hv'', hstep⟩ := (h.good.step action).2.views runId v hv
  obtain rfl := Option.some.inj (hv''.symm.trans hv')
  rcases hstep with hsame | hmove
  · exact Or.inl hsame
  · rw [hcause] at hmove
    exact Or.inr (hmove.finishes htracked (h.sound hv))

/-- Recovery is called while the process holds no future. -/
def recoversWithoutFutures (w : World) (action : Action) : Bool :=
  match action with
  | .recover => w.shared.coordinator.ownedFutures.isEmpty
  | _ => true

theorem recoversAtRestart_of_recoversWithoutFutures {w : World} {action : Action}
    (h : recoversWithoutFutures w action) : w.RecoversAtRestart action := by
  rintro rfl runId
  have hnone : w.shared.coordinator.ownedFutures = [] := by
    simpa [recoversWithoutFutures] using h
  simp [Shared.inFlight, hnone]

/-- The process crashes with `A` in flight, recovery finds nothing, and `A` is retried. -/
def Sample.retried : List Action :=
  create [stepPayload "A" "change" [] (some "undo"), stepPayload "B" "change" [] none] ++
    runOnce ++ toolSucceeds 1 ++ runOnce ++ crash ++ recover (some .notFound) ++ runOnce

open Sample in
theorem attempt_log_is_consistent_retried :
    ∃ v, (World.after deployment 0 retried).shared.view "r" = some v ∧
      v.attempts.rows.length = 3 ∧ v.inFlight.length = 1 ∧ v.LogConsistent := by
  have hreachable : Reachable deployment World.RecoversAtRestart
      (World.after deployment 0 retried) :=
    reachable_of_passes (fun _ _ => recoversAtRestart_of_recoversWithoutFutures) (.initial 0)
      (by decide +kernel)
  obtain ⟨v, hv, hlength, hinFlight⟩ := exists_view (w := World.after deployment 0 retried)
    (P := fun v => v.attempts.rows.length = 3 ∧ v.inFlight.length = 1) (by decide +kernel)
  exact ⟨v, hv, hlength, hinFlight, (attempt_log_is_consistent hreachable hv).1⟩

end ChangePilot
