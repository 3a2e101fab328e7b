import Mathlib.Tactic.Common

/-!
# States of runs and steps

The two state machines of the runtime, with their transition tables, and the
error classes that tool failures are sorted into.  Every string the source
writes for a state or a class is the `value` of the constructor.
-/

namespace ChangePilot

inductive RunState where
  | pending | running | waitingApproval | succeeded | failed
  | compensating | compensated | cancelled | manualIntervention
  deriving DecidableEq, Repr

inductive StepState where
  | pending | ready | running | retryWait | succeeded | failed
  | resultUnknown | manualIntervention
  deriving DecidableEq, Repr

inductive ErrorClass where
  | retryable | permanent | resultUnknown | internalConsistency
  deriving DecidableEq, Repr

def RunState.value : RunState → String
  | pending => "pending"
  | running => "running"
  | waitingApproval => "waiting_approval"
  | succeeded => "succeeded"
  | failed => "failed"
  | compensating => "compensating"
  | compensated => "compensated"
  | cancelled => "cancelled"
  | manualIntervention => "manual_intervention"

def StepState.value : StepState → String
  | pending => "pending"
  | ready => "ready"
  | running => "running"
  | retryWait => "retry_wait"
  | succeeded => "succeeded"
  | failed => "failed"
  | resultUnknown => "result_unknown"
  | manualIntervention => "manual_intervention"

def ErrorClass.value : ErrorClass → String
  | retryable => "retryable"
  | permanent => "permanent"
  | resultUnknown => "result_unknown"
  | internalConsistency => "internal_consistency"

/-- `RUN_TRANSITIONS`; a state that is not a key of the source's table has no
transitions. -/
def runTransitions : RunState → List RunState
  | .pending => [.running, .waitingApproval, .cancelled]
  | .running =>
      [.cancelled, .waitingApproval, .succeeded, .failed, .compensating, .manualIntervention]
  | .waitingApproval => [.running, .cancelled, .compensating, .manualIntervention]
  | .compensating => [.compensated, .manualIntervention]
  | _ => []

/-- `STEP_TRANSITIONS`. -/
def stepTransitions : StepState → List StepState
  | .pending => [.ready]
  | .ready => [.running]
  | .running => [.ready, .retryWait, .succeeded, .failed, .resultUnknown, .manualIntervention]
  | .retryWait => [.ready]
  | .resultUnknown => [.ready, .succeeded, .manualIntervention]
  | _ => []

/-- `_TERMINAL_RUN_STATES`. -/
def RunState.Terminal (state : RunState) : Prop :=
  state ∈ [succeeded, failed, compensated, cancelled, manualIntervention]

instance (state : RunState) : Decidable state.Terminal :=
  inferInstanceAs (Decidable (state ∈ _))

/-- `_FORWARD_RUN_STATES`. -/
def RunState.Forward (state : RunState) : Prop := state ∈ [pending, running]

instance (state : RunState) : Decidable state.Forward :=
  inferInstanceAs (Decidable (state ∈ _))

/-! ## Terminal states -/

/-- A run leaves no terminal state: the table has no entry for them. -/
theorem RunState.terminal_iff (state : RunState) :
    state.Terminal ↔ runTransitions state = [] := by
  cases state <;> decide

theorem RunState.not_terminal_of_transition {state target : RunState}
    (h : target ∈ runTransitions state) : ¬ state.Terminal := by
  intro hterminal
  rw [(terminal_iff state).mp hterminal] at h
  exact List.not_mem_nil h

/-- A step is entered as `pending` and never comes back to it. -/
theorem StepState.pending_notMem_transitions (state : StepState) :
    StepState.pending ∉ stepTransitions state := by
  cases state <;> decide

theorem RunState.pending_notMem_transitions (state : RunState) :
    RunState.pending ∉ runTransitions state := by
  cases state <;> decide

end ChangePilot
