import ChangePilot.System.AttemptLog
import ChangePilot.System.Creation

/-!
# Runs do not stall

While a run is open, each of its steps that cannot go on by itself has an attempt to
wait for: `Steady` says so, and that nothing has failed.  With nothing to wait for, the
steps that have not succeeded are pending or ready, and the first of them in the order
of the dependencies can be started.
-/

namespace ChangePilot

/-- The states from which a run can go on forward. -/
def RunState.Open (state : RunState) : Prop := state ∈ [pending, running, waitingApproval]

instance (state : RunState) : Decidable state.Open := inferInstanceAs (Decidable (state ∈ _))

theorem StepState.notMem_transitions_self (state : StepState) :
    state ∉ stepTransitions state := by
  cases state <;> decide

theorem RunState.open_of_transition {state target : RunState}
    (h : target ∈ runTransitions state) (htarget : target.Open) : state.Open := by
  cases state <;> cases target <;> first | decide | exact absurd h (by decide) |
    exact absurd htarget (by decide)

/-- A forward attempt of the step that recovery or an outcome has still to settle. -/
def StepAttempt.Unresolved (attempt : StepAttempt) : Prop :=
  attempt.status = .running ∨ attempt.AwaitsRecovery

instance (attempt : StepAttempt) : Decidable attempt.Unresolved :=
  inferInstanceAs (Decidable (_ ∨ _))

namespace RunRecord

variable (v : RunRecord)

/-- The step has an unresolved forward attempt. -/
def Waits (id : String) : Prop :=
  ∃ a ∈ v.attempts.rows, a.stepId = id ∧ a.phase = .forward ∧ a.Unresolved

def Attempted (id : String) : Prop := ∃ a ∈ v.attempts.rows, a.stepId = id

end RunRecord

/-- What a run has to show for the state of a step. -/
def RunView.Supports (v : RunView) (id : String) : StepState → Prop
  | .pending | .ready | .retryWait => True
  | .running | .resultUnknown => v.Waits id
  | .succeeded => v.Attempted id
  | .failed | .manualIntervention => ¬ v.run.state.Open

def RunView.Steady (v : RunView) : Prop :=
  ∀ id state, v.stateOf id = some state → v.Supports id state

/-! ## Moves keep runs steady -/

section

variable {cfg : Deployment} {cause : Cause} {v v' : RunView}

/-- A forward attempt stays as it is, or its step moves on. -/
theorem RunMove.forward_attempt_kept (h : RunMove cfg v cause v') {a : StepAttempt}
    (ha : a ∈ v.attempts.rows) (hphase : a.phase = .forward) :
    a ∈ v'.attempts.rows ∨ ∃ row row', v.steps a.stepId = some row ∧
      v'.steps a.stepId = some row' ∧ row'.state ∈ stepTransitions row.state := by
  -- An attempt of another phase is written.
  have otherPhase {new : StepAttempt} (hnew : new.phase ≠ .forward) :
      a ∈ (v.attempts.put new).rows := by
    refine KeyedTable.mem_put.mpr (Or.inr ⟨ha, fun hkey => hnew ?_⟩)
    rw [← (StepAttempt.key_eq_iff.mp hkey).2.2.2, hphase]
  -- An attempt of a step that moves on is written.
  have moved {id : String} {new : StepAttempt} {row row' : StepRun} (hnew : new.stepId = id)
      (hrow : v.steps id = some row) (htransition : row'.state ∈ stepTransitions row.state) :
      a ∈ (v.attempts.put new).rows ∨ ∃ row₀ row₀', v.steps a.stepId = some row₀ ∧
        Function.update v.steps id (some row') a.stepId = some row₀' ∧
          row₀'.state ∈ stepTransitions row₀.state := by
    by_cases hsame : a.key = new.key
    · have hid : a.stepId = id := (StepAttempt.key_eq_iff.mp hsame).2.1.trans hnew
      exact Or.inr ⟨row, row', hid ▸ hrow, by rw [hid, Function.update_self], htransition⟩
    · exact Or.inl (KeyedTable.mem_put.mpr (Or.inr ⟨ha, hsame⟩))
  cases h with
  | forwardStarted _ _ _ _ hnext | compensationStarted _ _ _ _ hnext =>
      exact Or.inl (KeyedTable.mem_put.mpr (Or.inr ⟨ha, hnext.key_ne ha⟩))
  | forwardFinished _ _ _ _ hrow hattempt _ _ htransition =>
      refine moved (RunRecord.findAttempt_eq_some hattempt).2.1 hrow ?_
      rw [RunRecord.finishedStep_state]
      exact htransition
  | compensationFinished _ _ _ hcompensation =>
      exact Or.inl (otherPhase (by simp [StepAttempt.completedWith, hcompensation]))
  | recoveredApplied _ hrow hunresolved _ _ _ hchanged =>
      obtain ⟨_, hid⟩ := RunRecord.mem_stepAttempts.mp (unresolvedAmong_spec hunresolved).1
      rcases hchanged with ⟨_, htransition, rfl⟩ | ⟨hnot, rfl⟩
      · exact moved hid hrow htransition
      · exact Or.inl (otherPhase hnot)
  | recoveredNotApplied _ hrow hunresolved _ _ hchanged =>
      obtain ⟨_, hid⟩ := RunRecord.mem_stepAttempts.mp (unresolvedAmong_spec hunresolved).1
      rcases hchanged with ⟨_, htransition, rfl⟩ | ⟨hnot, rfl⟩
      · exact moved hid hrow htransition
      · exact Or.inl (otherPhase hnot)
  | recoveredManual _ hrow hunresolved _ _ _ hchanged =>
      obtain ⟨_, hid⟩ := RunRecord.mem_stepAttempts.mp (unresolvedAmong_spec hunresolved).1
      rcases hchanged with ⟨_, htransition, rfl⟩ | ⟨hnot, rfl⟩
      · exact moved hid hrow htransition
      · exact Or.inl (otherPhase hnot)
  | _ => exact Or.inl ha

/-- What supports the state of a step that keeps its row is kept. -/
theorem RunMove.supports_kept (h : RunMove cfg v cause v') {id : String} {state : StepState}
    (hsame : v'.steps id = v.steps id) (hstate : v'.stateOf id = some state)
    (hv : v.Supports id state) : v'.Supports id state := by
  have waits (hwaits : v.Waits id) : v'.Waits id := by
    obtain ⟨a, ha, rfl, hphase, hunresolved⟩ := hwaits
    rcases h.forward_attempt_kept ha hphase with hkept | ⟨row, row', hrow, hrow', htransition⟩
    · exact ⟨a, hkept, rfl, hphase, hunresolved⟩
    · -- the row has not changed, and no state follows itself
      obtain rfl := Option.some.inj (hrow'.symm.trans (hsame.trans hrow))
      exact absurd htransition (StepState.notMem_transitions_self _)
  have closed (hclosed : ¬ v.run.state.Open) : ¬ v'.run.state.Open := by
    intro hopen
    rcases h.run_state with hrun | htransition
    · exact hclosed (hrun ▸ hopen)
    · exact hclosed (RunState.open_of_transition htransition hopen)
  cases state with
  | pending | ready | retryWait => trivial
  | running | resultUnknown => exact waits hv
  | succeeded =>
      obtain ⟨a, ha, rfl⟩ := hv
      obtain ⟨x, hx, hkey⟩ := h.attempt_kept ha
      exact ⟨x, hx, (StepAttempt.key_eq_iff.mp hkey).2.1⟩
  | failed | manualIntervention => exact closed hv

/-- Nothing is outstanding while a run waits for an approval. -/
theorem RunView.Outstanding.not_waiting (hv : v.Sound) {outcome : ExecutionOutcome}
    {phase : ToolExecutionPhase} {futures : List (ℕ × ToolExecutionContext)}
    (h : v.Outstanding outcome phase futures) : v.run.state ≠ .waitingApproval := by
  intro hwaiting
  obtain ⟨hquiet, hdrained, _⟩ := hv.waiting hwaiting
  cases h with
  | inFlight hmem => simp [hdrained] at hmem
  | notSubmitted hmem hrunning => exact (hquiet.attempts _ hmem).1 hrunning

/-- An outcome that fails its step closes the run. -/
theorem RunRecord.Settles.closed {w : RunRecord} {outcome : ExecutionOutcome}
    {run : WorkflowRun} (h : w.Settles .failed outcome run) (hpending : w.run.state ≠ .pending)
    (hwaiting : w.run.state ≠ .waitingApproval) : ¬ run.state.Open := by
  cases h with
  | unaffected _ hfailed =>
      intro hopen
      simp only [RunState.Open, List.mem_cons, List.not_mem_nil, or_false] at hopen
      rcases hopen with h | h | h
      · exact hpending h
      · exact hfailed h rfl
      · exact hwaiting h
  | completed _ hsucceeded => cases hsucceeded
  | failed | compensating => simp [RunState.Open]

/-- The states that steps come to are supported. -/
theorem RunMove.steady (h : RunMove cfg v cause v') (hv : v.Sound) (hsteady : v.Steady) :
    v'.Steady := by
  intro id state hstate
  have old (hsame : v'.steps id = v.steps id) : v'.Supports id state := by
    refine h.supports_kept hsame hstate (hsteady id state ?_)
    rwa [RunRecord.stateOf, ← hsame]
  -- A step whose row is replaced, and the others.
  have update {stepId : String} {row : StepRun}
      (hsteps : v'.steps = Function.update v.steps stepId (some row))
      (hnew : v'.Supports stepId row.state) : v'.Supports id state := by
    by_cases hid : id = stepId
    · subst hid
      rw [RunRecord.stateOf, hsteps, Function.update_self] at hstate
      obtain rfl : row.state = state := Option.some.inj hstate
      exact hnew
    · exact old (by rw [hsteps, Function.update_of_ne hid])
  have promoted {row : StepRun} (hrow : v'.steps id = some (row.moved .ready)) :
      v'.Supports id state := by
    rw [RunRecord.stateOf, hrow] at hstate
    obtain rfl : StepState.ready = state := Option.some.inj hstate
    trivial
  cases h with
  | retriesDue _ hsteps =>
      rcases hsteps id with hsame | ⟨_, _, _, _, _, _, _, _, hrow⟩
      · exact old hsame
      · exact promoted hrow
  | dependenciesReady _ hsteps =>
      rcases hsteps id with hsame | ⟨_, _, _, _, _, _, _, hrow⟩
      · exact old hsame
      · exact promoted hrow
  | forwardStarted _ _ _ _ hnext =>
      exact update rfl ⟨_, KeyedTable.mem_put.mpr (Or.inl rfl), hnext.stepId, hnext.phase,
        Or.inl hnext.status⟩
  | @forwardFinished _ step row attempt outcome _ completedAt nextState nextAttemptAt result _ _ _
      hsource _ _ _ hattempt hphase hresult _ hsettles =>
      refine update rfl ?_
      rw [RunRecord.finishedStep_state]
      obtain ⟨ha, hid, _⟩ := RunRecord.findAttempt_eq_some hattempt
      have hwritten : attempt.completedWith outcome completedAt nextAttemptAt result ∈
          (v.attempts.put (attempt.completedWith outcome completedAt nextAttemptAt result)).rows :=
        KeyedTable.mem_put.mpr (Or.inl rfl)
      rcases forwardResult_spec hresult with ⟨_, rfl, _⟩ |
        ⟨hfailed, ⟨_, _, rfl, _⟩ | ⟨hclass, rfl, _⟩ | ⟨_, rfl, _⟩⟩
      · exact ⟨_, hwritten, hid⟩
      · trivial
      · have hforward : attempt.phase = .forward := by
          cases hcase : attempt.phase with
          | forward => rfl
          | probe => exact absurd hcase (hv.phases attempt ha)
          | compensation => exact absurd hcase hphase
        refine ⟨_, hwritten, hid, hforward, Or.inr (Or.inr ⟨hclass, ?_⟩)⟩
        simp [StepAttempt.completedWith, hfailed]
      · refine hsettles.closed (fun hpending => ?_) (hsource.not_waiting hv)
        rw [hv.fresh hpending] at ha
        cases ha
  | recoveredApplied _ hrow hunresolved _ _ _ hchanged =>
      obtain ⟨_, hid⟩ := RunRecord.mem_stepAttempts.mp (unresolvedAmong_spec hunresolved).1
      rcases hchanged with ⟨_, _, rfl⟩ | ⟨_, rfl⟩
      · exact update rfl ⟨_, KeyedTable.mem_put.mpr (Or.inl rfl), hid⟩
      · exact old (by rw [← hrow, Function.update_eq_self])
  | recoveredNotApplied _ hrow _ _ _ hchanged =>
      rcases hchanged with ⟨_, _, rfl⟩ | ⟨_, rfl⟩
      · exact update rfl trivial
      · exact old (by rw [← hrow, Function.update_eq_self])
  | recoveredManual _ hrow _ _ _ hrun hchanged =>
      rcases hchanged with ⟨_, _, rfl⟩ | ⟨_, rfl⟩
      · refine update rfl ?_
        rcases hrun with rfl | rfl <;> simp [RunView.Supports, RunState.Open]
      · exact old (by rw [← hrow, Function.update_eq_self])
  | _ => exact old rfl

end

theorem RunView.steady_of_initial {v : RunView} (h : v.Initial) : v.Steady := by
  intro id state hstate
  obtain ⟨row, hrow, rfl⟩ := RunRecord.stateOf_eq_some_iff.mp hstate
  rw [(h.steps id row hrow).1]
  trivial

/-! ## Every step has a row -/

/-- The digests of the definitions of these payloads tell apart definitions with different
steps. -/
def Deployment.DigestsTell (cfg : Deployment) (payloads : Set Value) : Prop :=
  ∀ payload ∈ payloads, ∀ other ∈ payloads, ∀ definition stored,
    WorkflowDefinition.fromMapping cfg.runtime cfg.registry payload = .ok definition →
      WorkflowDefinition.fromMapping cfg.runtime cfg.registry other = .ok stored →
        stored.digest = definition.digest →
          stored.steps.map StepDefinition.id = definition.steps.map StepDefinition.id

/-- Runs are created of these payloads only. -/
def World.CreatesOf (payloads : Set Value) (_ : World) (action : Action) : Prop :=
  ∀ payload runId, action = .createRun payload runId → payload ∈ payloads

def RunRecord.Stocked (v : RunRecord) : Prop :=
  ∀ step ∈ v.definition.steps, (v.steps step.id).isSome

theorem RunMove.stocked {cfg : Deployment} {cause : Cause} {v v' : RunView}
    (h : RunMove cfg v cause v') (hv : v.Stocked) : v'.Stocked := by
  intro step hstep
  rw [h.isSome_steps]
  exact hv step (h.definition_eq ▸ hstep)

/-- A new run has a row for each step of the definition that it executes, which may be
an older one of the same digest. -/
theorem WorkflowService.Stores.stocked {cfg : Deployment} {payloads : Set Value} {runId : String}
    {definition : WorkflowDefinition} {store next : MemoryStore} {v : RunRecord} {payload : Value}
    (h : Stores runId definition store next) (hv : next.record runId = some v)
    (hpayload : payload ∈ payloads)
    (hparsed : WorkflowDefinition.fromMapping cfg.runtime cfg.registry payload = .ok definition)
    (haccepted : ∀ key stored, store.definitions.get key = some stored → ∃ other ∈ payloads,
      WorkflowDefinition.fromMapping cfg.runtime cfg.registry other = .ok stored)
    (hdigests : cfg.DigestsTell payloads) : v.Stocked := by
  obtain ⟨hrun, hdefinition, hsteps, _⟩ := MemoryStore.record_eq_some_iff.mp hv
  obtain ⟨stored, hstored, horigin⟩ := h.stored
  rw [Option.some.inj (hrun.symm.trans h.run), hstored] at hdefinition
  obtain rfl : stored = v.definition := Option.some.inj hdefinition
  have hids : v.definition.steps.map StepDefinition.id =
      definition.steps.map StepDefinition.id := by
    rcases horigin with ⟨_, hnew⟩ | ⟨hold, hdigest⟩
    · rw [hnew]
    · obtain ⟨other, hother, hstored⟩ := haccepted _ _ hold
      exact hdigests payload hpayload other hother _ _ hparsed hstored hdigest
  intro step hstep
  have hmem : step.id ∈ definition.steps.map StepDefinition.id :=
    hids ▸ List.mem_map_of_mem hstep
  rw [← hsteps, h.rows, if_pos hmem]
  rfl

end ChangePilot
