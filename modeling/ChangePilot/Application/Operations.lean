import ChangePilot.Application.RecoveryUnits
import ChangePilot.Application.Services
import ChangePilot.Library.Program

/-!
# Operations on the shared state

The coordinator and the recovery service are programs over the operations below.
An operation is one unit of work, or one access to the process's own state; a
request is handed to the executor together with the unit of work that records
its start, and a future is settled together with the one that records its
outcome, because nothing else reads what lies between.

What the surroundings decide is an `Inputs`: fresh identifiers, the selected run,
failing submissions, the endings of tools that are waited for, and the answers
of probes.
-/

namespace ChangePilot

/-! ## The shared state -/

/-- The fields of a `Coordinator` object that change. -/
structure Coordinator where
  ownedFutures : List OwnedFuture := []
  locallyPersistedResultUnknownRuns : List String := []
  closed : Bool := false
  nextFuture : ℕ := 0

/-- The store, the coordinator's own state and the clock.  `latest` is the
greatest reading of the clock so far; no code reads it. -/
structure Shared where
  store : MemoryStore := {}
  coordinator : Coordinator := {}
  clock : Timestamp
  latest : Timestamp

structure Inputs where
  newId : String := ""
  selected : Option String := none
  submitFails : Bool := false
  cancelSucceeds : Bool := false
  endings : ℕ → Except ToolException ToolExecutionResult := fun _ => .error .other
  answers : ProbeAnswers := fun _ => none

/-- What one turn of the loop over the owned futures did. -/
inductive CollectResult where
  | skipped
  | persisted (outcome : ExecutionOutcome)
  | failed

/-! ## Operations -/

inductive Op where
  | isClosed | markClosed
  | now | newIdentifier | selectRun
  | ownedFutures
  | collectFuture (id : ℕ) (now : Timestamp)
  | closeFuture (id : ℕ)
  | awaitFutures
  | availableCapacity
  | hasUnpersistedOutcome (runId : String)
  | isLocallyUnknown (runId : String)
  | getRun (runId : String)
  | hasPersistedRecoveryWork (runId : String)
  | loadDefinitionAndSteps (runId : String)
  | listApprovals (runId : String)
  | listAttempts (runId : String)
  | readForAttempt (runId stepId : String)
  | promoteDueRetries (runId : String) (now : Timestamp)
  | promoteDependencyReadySteps (runId : String)
  | establishApprovalBarrier (runId stepId : String)
  | dispatch (prepared : PreparedAttempt)
  | persistSubmissionFailure (prepared : PreparedAttempt) (errorClass : ErrorClass)
  | completeCompensation (runId : String)
  | nonterminalRuns
  | pendingRecovery (runId : String)
  | recoverAttempt (runId stepId : String) (attempt : StepAttempt)

/-- What an operation answers when it does not raise. -/
def Op.Ans : Op → Type
  | isClosed | hasUnpersistedOutcome _ | isLocallyUnknown _ | hasPersistedRecoveryWork _
  | dispatch _ => Bool
  | now => Timestamp
  | newIdentifier => String
  | selectRun => Option String
  | ownedFutures => List ℕ
  | collectFuture _ _ => CollectResult
  | availableCapacity => ℕ
  | getRun _ => Option WorkflowRun
  | loadDefinitionAndSteps _ => WorkflowDefinition × List StepRun
  | listApprovals _ => List ApprovalRequest
  | listAttempts _ | readForAttempt _ _ => List StepAttempt
  | establishApprovalBarrier _ _ => Option BlockedReason
  | nonterminalRuns => List String
  | pendingRecovery _ => Option (List (String × StepAttempt))
  | markClosed | closeFuture _ | awaitFutures | promoteDueRetries _ _
  | promoteDependencyReadySteps _ | persistSubmissionFailure _ _ | completeCompensation _
  | recoverAttempt _ _ _ => Unit

namespace Shared

/-- Run a unit of work; if it raises, the store stays as it is. -/
def inStore {α : Type} (s : Shared) (body : UowM (Exit α)) : Except Error α × Shared :=
  match s.store.transact body with
  | .error error => (.error error, s)
  | .ok (a, store) => (.ok a, { s with store := store })

def findOwned (s : Shared) (id : ℕ) : Option OwnedFuture :=
  s.coordinator.ownedFutures.find? fun owned => owned.id = id

/-- Forget a future. -/
def dropOwned (s : Shared) (id : ℕ) : Shared :=
  { s with coordinator.ownedFutures :=
      s.coordinator.ownedFutures.filter fun owned => owned.id ≠ id }

def updateOwned (s : Shared) (id : ℕ) (f : OwnedFuture → OwnedFuture) : Shared :=
  { s with coordinator.ownedFutures :=
      s.coordinator.ownedFutures.map fun owned => if owned.id = id then f owned else owned }

/-- The future's outcome is recorded: it is dropped if it is done, and kept with
its flag set otherwise. -/
def settle (s : Shared) (owned : OwnedFuture) : Shared :=
  if owned.state.Done then s.dropOwned owned.id
  else s.updateOwned owned.id fun owned => { owned with outcomePersisted := true }

def rememberUnknown (s : Shared) (runId : String) (unknown : Bool) : Shared :=
  if unknown then
    { s with coordinator.locallyPersistedResultUnknownRuns :=
        runId :: s.coordinator.locallyPersistedResultUnknownRuns }
  else s

/-- `_persist_outcome`, with what it does to the process. -/
def recordOutcome (cfg : Deployment) (s : Shared) (outcome : ExecutionOutcome)
    (sensitivePaths : List (List String)) : Except Error Unit × Shared :=
  match s.store.transact (persistOutcome cfg outcome s.clock sensitivePaths) with
  | .error error => (.error error, s)
  | .ok (unknown, store) =>
      (.ok (), ({ s with store := store } : Shared).rememberUnknown outcome.runId unknown)

/-- The outcome that `_collect_outcomes` finds for a future at the instant `now`. -/
def collectedOutcome (owned : OwnedFuture) (now : Timestamp) : Option ExecutionOutcome :=
  match outcomeFromFuture owned with
  | some outcome => some outcome
  | none =>
      if owned.context.deadline ≤ now then
        some (failedOutcome owned.context .resultUnknown "tool result unknown")
      else none

/-- One turn of the loop in `_collect_outcomes`. -/
def collectFuture (cfg : Deployment) (s : Shared) (id : ℕ) (now : Timestamp) :
    CollectResult × Shared :=
  match s.findOwned id with
  | none => (.skipped, s)
  | some owned =>
      if owned.outcomePersisted then
        (.skipped, if owned.state.Done then s.dropOwned id else s)
      else
        match collectedOutcome owned now with
        | none => (.skipped, s)
        | some outcome =>
            match s.recordOutcome cfg outcome owned.sensitivePaths with
            | (.error _, s) => (.failed, s)
            | (.ok (), s) => (.persisted outcome, s.settle owned)

/-- The future as the loop in `close` leaves it, with the outcome to record. -/
def closingOutcome (owned : OwnedFuture) (cancelSucceeds : Bool) :
    OwnedFuture × ExecutionOutcome :=
  match outcomeFromFuture owned with
  | some outcome => (owned, outcome)
  | none =>
      if cancelSucceeds then
        ({ owned with state := .cancelled },
          failedOutcome owned.context .retryable "tool submission cancelled")
      else (owned, failedOutcome owned.context .resultUnknown "tool result unknown")

/-- One turn of the loop in `close`. -/
def closeFuture (cfg : Deployment) (s : Shared) (id : ℕ) (cancelSucceeds : Bool) :
    Except Error Unit × Shared :=
  match s.findOwned id with
  | none => (.ok (), s)
  | some owned =>
      if owned.outcomePersisted then (.ok (), s)
      else
        let (closing, outcome) := closingOutcome owned cancelSucceeds
        let s := s.updateOwned id fun _ => closing
        match s.recordOutcome cfg outcome owned.sensitivePaths with
        | (.error _, s) =>
            (.error (.outcomePersistenceError "outcome persistence failed during close"), s)
        | (.ok (), s) => (.ok (), s.settle closing)

/-- Hand a request to the executor. -/
def own (s : Shared) (prepared : PreparedAttempt) : Shared :=
  { s with
    coordinator.ownedFutures := s.coordinator.ownedFutures ++ [{
      id := s.coordinator.nextFuture
      context := prepared.context
      sensitivePaths := prepared.sensitivePaths }]
    coordinator.nextFuture := s.coordinator.nextFuture + 1 }

/-- `_commit_attempt_started`, and the submission if that succeeds. -/
def dispatch (s : Shared) (prepared : PreparedAttempt) (submitFails : Bool) :
    Except Error Bool × Shared :=
  match s.inStore (commitAttemptStarted prepared.attempt) with
  | (.error error, s) => (.error error, s)
  | (.ok (), s) => if submitFails then (.ok false, s) else (.ok true, s.own prepared)

/-- The executor has finished whatever was pending. -/
def awaitFutures (s : Shared) (endings : ℕ → Except ToolException ToolExecutionResult) :
    Shared :=
  { s with coordinator.ownedFutures := s.coordinator.ownedFutures.map fun owned =>
      if owned.state.Done then owned else { owned with state := .done (endings owned.id) } }

/-- `_load_definition_and_steps`. -/
def loadDefinitionAndSteps (s : Shared) (runId : String) :
    Except Error (WorkflowDefinition × List StepRun) := do
  let some run := s.store.runs.get runId | throw (unknownRun runId)
  let some definition := s.store.definitionOf run | throw (unknownDefinition run)
  let stepRuns := s.store.stepRuns runId definition
  if stepRuns.length ≠ definition.steps.length then
    throw (.runtimeError s!"run {runId} is missing step state")
  return (definition, stepRuns)

end Shared

/-- What each operation answers and does. -/
def exec (cfg : Deployment) : (op : Op) → Inputs → Shared → Except Error op.Ans × Shared
  | .isClosed, _, s => (.ok s.coordinator.closed, s)
  | .markClosed, _, s => (.ok (), { s with coordinator.closed := true })
  | .now, _, s => (.ok s.clock, s)
  | .newIdentifier, inputs, s => (.ok inputs.newId, s)
  | .selectRun, inputs, s => (.ok inputs.selected, s)
  | .ownedFutures, _, s => (.ok (s.coordinator.ownedFutures.map OwnedFuture.id), s)
  | .collectFuture id now, _, s =>
      (.ok (s.collectFuture cfg id now).1, (s.collectFuture cfg id now).2)
  | .closeFuture id, inputs, s => s.closeFuture cfg id inputs.cancelSucceeds
  | .awaitFutures, inputs, s => (.ok (), s.awaitFutures inputs.endings)
  | .availableCapacity, _, s =>
      (.ok (cfg.concurrency - s.coordinator.ownedFutures.countP fun owned => !owned.state.Done), s)
  | .hasUnpersistedOutcome runId, _, s =>
      (.ok (s.coordinator.ownedFutures.any fun owned => owned.Unpersisted runId), s)
  | .isLocallyUnknown runId, _, s =>
      (.ok (s.coordinator.locallyPersistedResultUnknownRuns.contains runId), s)
  | .getRun runId, _, s => (.ok (s.store.runs.get runId), s)
  | .hasPersistedRecoveryWork runId, _, s =>
      (hasPersistedRecoveryWork s.coordinator.ownedFutures s.store runId, s)
  | .loadDefinitionAndSteps runId, _, s => (s.loadDefinitionAndSteps runId, s)
  | .listApprovals runId, _, s => (.ok (s.store.listApprovals runId), s)
  | .listAttempts runId, _, s => (.ok (s.store.listAttempts runId), s)
  | .readForAttempt runId stepId, _, s => (readForAttempt s.store runId stepId, s)
  | .promoteDueRetries runId now, _, s => s.inStore (promoteDueRetries runId now s.clock)
  | .promoteDependencyReadySteps runId, _, s =>
      s.inStore (promoteDependencyReadySteps runId s.clock)
  | .establishApprovalBarrier runId stepId, inputs, s =>
      s.inStore (establishApprovalBarrier cfg s.coordinator.ownedFutures runId stepId
        inputs.newId s.clock)
  | .dispatch prepared, inputs, s => s.dispatch prepared inputs.submitFails
  | .persistSubmissionFailure prepared errorClass, _, s =>
      s.recordOutcome cfg (failedOutcome prepared.context errorClass "tool submission failed")
        prepared.sensitivePaths
  | .completeCompensation runId, _, s => s.inStore (completeCompensation runId s.clock)
  | .nonterminalRuns, _, s => (.ok (nonterminalRuns s.store), s)
  | .pendingRecovery runId, _, s => (pendingRecovery s.store runId, s)
  | .recoverAttempt runId stepId attempt, inputs, s =>
      s.inStore (recoverAttempt cfg inputs.answers runId stepId attempt s.clock)

end ChangePilot
