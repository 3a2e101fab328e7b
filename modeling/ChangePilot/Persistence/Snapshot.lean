import ChangePilot.Library.StagedTable
import ChangePilot.Ports.Persistence

/-!
# Snapshots

The copy of the store that a unit of work reads and changes, as both adapters
keep it: every table with its new and its dirty keys and the revisions it
expects, the events as they were, and the events staged since, which are kept in
one list in the order in which they were staged.

`RecordOp` is a call that stages a change, and `Snapshot.stage` performs it: each method
raises before it changes anything.  What a
snapshot publishes is what its changes make of the store one after another
(`publish_stage`), whatever the store has become in the meantime.
-/

namespace ChangePilot

variable {R : Records}

/-! ## The store -/

/-- The tables, the event logs, and the number of the last event of each run. -/
structure RecordStore (R : Records) where
  definitions : KeyedTable R.definitionIdentity := .empty
  runs : KeyedTable R.runId := .empty
  steps : KeyedTable R.stepIdentity := .empty
  attempts : KeyedTable R.attemptIdentity := .empty
  approvals : KeyedTable R.approvalIdentity := .empty
  events : String → List (Sequenced R.Event) := fun _ => []
  eventSequences : String → ℕ := fun _ => 0

/-- A change that a unit of work stages. -/
inductive RecordOp (R : Records) where
  | addDefinition (definition : R.Definition)
  | addRun (run : R.Run)
  | saveRun (run : R.Run) (expectedRevision : ℤ)
  | addStep (step : R.Step)
  | saveStep (step : R.Step) (expectedRevision : ℤ)
  | addAttempt (attempt : R.Attempt)
  | saveAttempt (attempt : R.Attempt)
  | addApproval (approval : R.Approval)
  | saveApproval (approval : R.Approval) (expectedVersion : ℤ)
  | appendEvent (event : R.Event)

namespace RecordStore

/-- Append an event to the log of its run, under the next number. -/
def appendEvent (store : RecordStore R) (event : R.Event) : RecordStore R :=
  let runId := R.eventRunId event
  { store with
    events := Function.update store.events runId
      (store.events runId ++ [⟨store.eventSequences runId + 1, event⟩])
    eventSequences := Function.update store.eventSequences runId
      (store.eventSequences runId + 1) }

/-- The store after a change made to it directly. -/
def apply (store : RecordStore R) : RecordOp R → RecordStore R
  | .addDefinition definition => { store with definitions := store.definitions.put definition }
  | .addRun run | .saveRun run _ => { store with runs := store.runs.put run }
  | .addStep step | .saveStep step _ => { store with steps := store.steps.put step }
  | .addAttempt attempt | .saveAttempt attempt =>
      { store with attempts := store.attempts.put attempt }
  | .addApproval approval | .saveApproval approval _ =>
      { store with approvals := store.approvals.put approval }
  | .appendEvent event => store.appendEvent event

/-- The events of each run are numbered from 1 on, and the counter is at the last. -/
def Numbered (store : RecordStore R) : Prop :=
  ∀ runId, (store.events runId).map Sequenced.sequence =
    List.range' 1 (store.eventSequences runId)

theorem numbered_empty : ({} : RecordStore R).Numbered := fun _ => rfl

theorem Numbered.appendEvent {store : RecordStore R} (h : store.Numbered) (event : R.Event) :
    (store.appendEvent event).Numbered := by
  intro runId
  by_cases hrun : runId = R.eventRunId event
  · subst hrun
    simp only [RecordStore.appendEvent, Function.update_self, List.map_append, List.map_cons,
      List.map_nil, h (R.eventRunId event)]
    rw [List.range'_1_concat, Nat.add_comm 1]
  · simpa only [RecordStore.appendEvent, Function.update_of_ne hrun] using h runId

theorem Numbered.apply {store : RecordStore R} (h : store.Numbered) (op : RecordOp R) :
    (store.apply op).Numbered := by
  cases op with
  | appendEvent event => exact h.appendEvent event
  | _ => exact h

theorem Numbered.foldl_apply {ops : List (RecordOp R)} :
    ∀ {store : RecordStore R}, store.Numbered → (ops.foldl RecordStore.apply store).Numbered := by
  induction ops with
  | nil => exact fun h => h
  | cons op rest ih => exact fun h => ih (h.apply op)

end RecordStore

/-! ## The snapshot -/

structure Snapshot (R : Records) where
  definitions : StagedTable R.definitionIdentity
  runs : StagedTable R.runId
  steps : StagedTable R.stepIdentity
  attempts : StagedTable R.attemptIdentity
  approvals : StagedTable R.approvalIdentity
  committedEvents : String → List (Sequenced R.Event)
  committedEventSequences : String → ℕ
  pendingEvents : List R.Event

/-- Number events after the number `last`. -/
def numberEvents {Event : Type} (last : ℕ) : List Event → List (Sequenced Event)
  | [] => []
  | event :: rest => ⟨last + 1, event⟩ :: numberEvents (last + 1) rest

theorem numberEvents_concat {Event : Type} (event : Event) :
    ∀ (events : List Event) (last : ℕ),
      numberEvents last (events ++ [event]) =
        numberEvents last events ++ [⟨last + events.length + 1, event⟩] := by
  intro events
  induction events with
  | nil => intro last; rfl
  | cons first rest ih =>
      intro last
      have hlast : last + 1 + rest.length = last + (first :: rest).length := by
        rw [List.length_cons]
        omega
      rw [List.cons_append, numberEvents, ih, hlast]
      rfl

namespace Snapshot

/-- `_Snapshot.from_store`. -/
def fromStore (store : RecordStore R) : Snapshot R where
  definitions := .copy store.definitions
  runs := .copy store.runs
  steps := .copy store.steps
  attempts := .copy store.attempts
  approvals := .copy store.approvals
  committedEvents := store.events
  committedEventSequences := store.eventSequences
  pendingEvents := []

/-- `stage_event`. -/
def stageEvent (snapshot : Snapshot R) (event : R.Event) : Snapshot R :=
  { snapshot with pendingEvents := snapshot.pendingEvents ++ [event] }

/-- The staged events of a run. -/
def pendingOf (snapshot : Snapshot R) (runId : String) : List R.Event :=
  snapshot.pendingEvents.filter fun event => R.eventRunId event = runId

/-- The identifier of an attempt in a message. -/
def attemptIdentifier (key : String ×ₗ String ×ₗ ℕ ×ₗ String) : String :=
  let (runId, rest) := ofLex key
  let (stepId, rest) := ofLex rest
  let (attemptNo, phase) := ofLex rest
  s!"{runId}:{stepId}:{attemptNo}:{phase}"

def definitionIdentifier (key : String ×ₗ ℕ) : String := s!"{(ofLex key).1}@{(ofLex key).2}"

def pairIdentifier (key : String ×ₗ String) : String := s!"{(ofLex key).1}:{(ofLex key).2}"

/-- What the `add` and `save` methods raise, before they change anything. -/
def refusal (snapshot : Snapshot R) : RecordOp R → Option PersistenceError
  | .saveRun run expectedRevision =>
      if R.runRevision run ≠ expectedRevision + 1 then
        some (.invalidRevisionError "run" (R.runId run) (expectedRevision + 1)
          (R.runRevision run))
      else none
  | .saveStep step expectedRevision =>
      if R.stepRevision step ≠ expectedRevision + 1 then
        some (.invalidRevisionError "step" (pairIdentifier (R.stepIdentity step))
          (expectedRevision + 1) (R.stepRevision step))
      else none
  | .addAttempt attempt =>
      if R.attemptIdentity attempt ∈ snapshot.attempts.added then
        some (.uniquenessError "attempt" (attemptIdentifier (R.attemptIdentity attempt)))
      else none
  | .saveAttempt attempt =>
      if (snapshot.attempts.rows.get (R.attemptIdentity attempt)).isNone then
        some (.persistenceError
          s!"cannot save missing attempt: {attemptIdentifier (R.attemptIdentity attempt)}")
      else none
  | .addApproval approval =>
      if R.approvalIdentity approval ∈ snapshot.approvals.added then
        some (.uniquenessError "approval" (pairIdentifier (R.approvalIdentity approval)))
      else none
  | .saveApproval approval expectedVersion =>
      if R.approvalVersion approval ≠ expectedVersion + 1 then
        some (.invalidRevisionError "approval" (R.approvalKey approval) (expectedVersion + 1)
          (R.approvalVersion approval))
      else if (snapshot.approvals.rows.get (R.approvalIdentity approval)).isNone then
        some (.persistenceError s!"cannot save missing approval: {R.approvalKey approval}")
      else none
  | _ => none

/-- What the `add` and `save` methods change. -/
def record (snapshot : Snapshot R) : RecordOp R → Snapshot R
  | .addDefinition definition =>
      { snapshot with definitions := snapshot.definitions.add definition }
  | .addRun run => { snapshot with runs := snapshot.runs.add run }
  | .saveRun run expectedRevision =>
      { snapshot with runs := snapshot.runs.save run expectedRevision }
  | .addStep step => { snapshot with steps := snapshot.steps.add step }
  | .saveStep step expectedRevision =>
      { snapshot with steps := snapshot.steps.save step expectedRevision }
  | .addAttempt attempt => { snapshot with attempts := snapshot.attempts.add attempt }
  | .saveAttempt attempt => { snapshot with attempts := snapshot.attempts.replace attempt }
  | .addApproval approval => { snapshot with approvals := snapshot.approvals.add approval }
  | .saveApproval approval expectedVersion =>
      { snapshot with approvals := snapshot.approvals.save approval expectedVersion }
  | .appendEvent event => snapshot.stageEvent event

/-- The `add` and `save` methods of the repositories. -/
def stage (snapshot : Snapshot R) (op : RecordOp R) : Except PersistenceError (Snapshot R) :=
  match snapshot.refusal op with
  | some error => .error error
  | none => .ok (snapshot.record op)

theorem stage_eq_ok_iff {snapshot next : Snapshot R} {op : RecordOp R} :
    snapshot.stage op = .ok next ↔ snapshot.refusal op = none ∧ snapshot.record op = next := by
  unfold stage
  cases snapshot.refusal op <;> simp

/-- The events to publish, numbered after the last event that the store has. -/
def allocatePublishedEvents (snapshot : Snapshot R) (store : RecordStore R) (runId : String) :
    List (Sequenced R.Event) :=
  numberEvents (store.eventSequences runId) (snapshot.pendingOf runId)

/-- `_publish_locked`. -/
def publish (snapshot : Snapshot R) (store : RecordStore R) : RecordStore R where
  definitions := snapshot.definitions.publish store.definitions
  runs := snapshot.runs.publish store.runs
  steps := snapshot.steps.publish store.steps
  attempts := snapshot.attempts.publish store.attempts
  approvals := snapshot.approvals.publish store.approvals
  events runId := store.events runId ++ snapshot.allocatePublishedEvents store runId
  eventSequences runId := store.eventSequences runId + (snapshot.pendingOf runId).length

/-! ## What a snapshot publishes -/

theorem publish_fromStore (base store : RecordStore R) : (fromStore base).publish store = store := by
  simp [publish, fromStore, allocatePublishedEvents, pendingOf, numberEvents]

theorem pendingOf_stageEvent (snapshot : Snapshot R) (event : R.Event) (runId : String) :
    (snapshot.stageEvent event).pendingOf runId =
      if R.eventRunId event = runId then snapshot.pendingOf runId ++ [event]
      else snapshot.pendingOf runId := by
  simp only [pendingOf, stageEvent, List.filter_append, List.filter_cons, List.filter_nil,
    decide_eq_true_eq]
  split
  case isTrue => rfl
  case isFalse => rw [List.append_nil]

theorem publish_stageEvent (snapshot : Snapshot R) (event : R.Event) (store : RecordStore R) :
    (snapshot.stageEvent event).publish store = (snapshot.publish store).appendEvent event := by
  have hevents : ∀ runId, ((snapshot.stageEvent event).publish store).events runId =
      ((snapshot.publish store).appendEvent event).events runId := by
    intro runId
    simp only [publish, allocatePublishedEvents, RecordStore.appendEvent, pendingOf_stageEvent]
    by_cases hrun : R.eventRunId event = runId
    · subst hrun
      rw [if_pos rfl, Function.update_self, numberEvents_concat, List.append_assoc]
    · rw [if_neg hrun, Function.update_of_ne (Ne.symm hrun)]
  have hsequences : ∀ runId, ((snapshot.stageEvent event).publish store).eventSequences runId =
      ((snapshot.publish store).appendEvent event).eventSequences runId := by
    intro runId
    simp only [publish, RecordStore.appendEvent, pendingOf_stageEvent]
    by_cases hrun : R.eventRunId event = runId
    · subst hrun
      rw [if_pos rfl, Function.update_self, List.length_append, List.length_singleton,
        Nat.add_assoc]
    · rw [if_neg hrun, Function.update_of_ne (Ne.symm hrun)]
  exact RecordStore.mk.injEq .. |>.mpr
    ⟨rfl, rfl, rfl, rfl, rfl, funext hevents, funext hsequences⟩

/-- A staged change adds itself to what is published. -/
theorem publish_record (snapshot : Snapshot R) (op : RecordOp R) (store : RecordStore R) :
    (snapshot.record op).publish store = (snapshot.publish store).apply op := by
  cases op with
  | appendEvent event => exact publish_stageEvent snapshot event store
  | addDefinition definition =>
      simp only [publish, record, RecordStore.apply, StagedTable.publish_add]
      rfl
  | addRun run | addStep step | addAttempt attempt | addApproval approval =>
      simp only [publish, record, RecordStore.apply, StagedTable.publish_add]
      rfl
  | saveAttempt attempt =>
      simp only [publish, record, RecordStore.apply, StagedTable.publish_replace]
      rfl
  | saveRun row expected | saveStep row expected | saveApproval row expected =>
      simp only [publish, record, RecordStore.apply, StagedTable.publish_save]
      rfl

theorem publish_stage {snapshot next : Snapshot R} {op : RecordOp R}
    (h : snapshot.stage op = .ok next) (store : RecordStore R) :
    next.publish store = (snapshot.publish store).apply op := by
  obtain ⟨_, rfl⟩ := stage_eq_ok_iff.mp h
  exact publish_record snapshot op store

end Snapshot

end ChangePilot
