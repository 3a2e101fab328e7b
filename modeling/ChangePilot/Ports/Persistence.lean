import Mathlib.Data.Prod.Lex
import Mathlib.Data.String.Basic

/-!
# The persistence ports

What a unit of work asks of the records it is instantiated with, and the
exceptions of the ports.  `Records` collects the type parameters with the fields
that their protocols name; a key is the tuple of identifying fields.
-/

namespace ChangePilot

/-- The record types of a unit of work. -/
structure Records where
  Definition : Type
  Run : Type
  Step : Type
  Attempt : Type
  Approval : Type
  Event : Type
  definitionId : Definition → String
  definitionVersion : Definition → ℕ
  runId : Run → String
  runRevision : Run → ℤ
  stepRunId : Step → String
  stepId : Step → String
  stepRevision : Step → ℤ
  attemptRunId : Attempt → String
  attemptStepId : Attempt → String
  attemptNo : Attempt → ℕ
  attemptPhase : Attempt → String
  approvalRunId : Approval → String
  approvalKey : Approval → String
  approvalVersion : Approval → ℤ
  approvalStatus : Approval → String
  eventRunId : Event → String

namespace Records

variable (R : Records)

/-- `_definition_key`. -/
def definitionIdentity (definition : R.Definition) : String ×ₗ ℕ :=
  toLex (R.definitionId definition, R.definitionVersion definition)

/-- `_step_key`. -/
def stepIdentity (step : R.Step) : String ×ₗ String := toLex (R.stepRunId step, R.stepId step)

/-- `_attempt_key`. -/
def attemptIdentity (attempt : R.Attempt) : String ×ₗ String ×ₗ ℕ ×ₗ String :=
  toLex (R.attemptRunId attempt,
    toLex (R.attemptStepId attempt, toLex (R.attemptNo attempt, R.attemptPhase attempt)))

/-- `_approval_key`. -/
def approvalIdentity (approval : R.Approval) : String ×ₗ String :=
  toLex (R.approvalRunId approval, R.approvalKey approval)

end Records

/-- An event with its number in the log of its run. -/
structure Sequenced (Event : Type) where
  sequence : ℕ
  event : Event

/-- The exceptions of the ports, under their class names. -/
inductive PersistenceError where
  | persistenceError (message : String)
  | optimisticLockError (aggregateType identifier : String) (expectedRevision actualRevision : ℤ)
  | uniquenessError (recordType identifier : String)
  | invalidRevisionError (aggregateType identifier : String)
      (expectedRevision actualRevision : ℤ)
  | unitOfWorkStateError (message : String)
  deriving DecidableEq, Repr

end ChangePilot
