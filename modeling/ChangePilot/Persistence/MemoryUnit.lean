import ChangePilot.Persistence.Snapshot

/-!
# The memory unit of work

`MemoryUnitOfWork` on the store it shares with others.  `commit` validates the
snapshot against the store as it is at that moment, in several passes, and then
publishes it; an exception leaves the objects as they are when it is raised.
-/

namespace ChangePilot

variable {R : Records}

structure UnitOfWork (R : Records) where
  snapshot : Snapshot R
  committed : Bool := false
  rolledBack : Bool := false

/-! ## Validation -/

namespace Snapshot

/-- The number of pending requests of a run, with the staged requests in place. -/
def pendingCount (snapshot : Snapshot R) (store : RecordStore R) (runId : String) : ℕ :=
  ((snapshot.approvals.publish store.approvals).rows.filter fun approval =>
    R.approvalStatus approval = "pending" ∧ R.approvalRunId approval = runId).length

/-- A run with more than one pending request. -/
def duplicateRun (snapshot : Snapshot R) (store : RecordStore R) : Option String :=
  ((snapshot.approvals.publish store.approvals).rows.map R.approvalRunId).find? fun runId =>
    1 < snapshot.pendingCount store runId

/-- `_validate_uniqueness_locked`. -/
def validateUniqueness (snapshot : Snapshot R) (store : RecordStore R) :
    Except PersistenceError Unit := do
  snapshot.definitions.checkAdded store.definitions fun key =>
    .uniquenessError "definition" (definitionIdentifier key)
  snapshot.runs.checkAdded store.runs fun key => .uniquenessError "run" key
  snapshot.steps.checkAdded store.steps fun key => .uniquenessError "step" (pairIdentifier key)
  snapshot.attempts.checkAdded store.attempts fun key =>
    .uniquenessError "attempt" (attemptIdentifier key)
  snapshot.approvals.checkAdded store.approvals fun key =>
    .uniquenessError "approval" (pairIdentifier key)
  match snapshot.duplicateRun store with
  | some runId => .error (.uniquenessError "pending_approval" runId)
  | none => .ok ()

/-- `_validate_revisions_locked`. -/
def validateRevisions (snapshot : Snapshot R) (store : RecordStore R) :
    Except PersistenceError Unit := do
  snapshot.runs.checkExpected R.runRevision store.runs fun key =>
    .optimisticLockError "run" key
  snapshot.steps.checkExpected R.stepRevision store.steps fun key =>
    .optimisticLockError "step" (pairIdentifier key)
  snapshot.approvals.checkExpected R.approvalVersion store.approvals fun key =>
    .optimisticLockError "approval" (ofLex key).2

/-- What a store must be for the snapshot to be published into it. -/
structure Fits (snapshot : Snapshot R) (store : RecordStore R) : Prop where
  definitions : ∀ key ∈ snapshot.definitions.added, store.definitions.get key = none
  newRuns : ∀ key ∈ snapshot.runs.added, store.runs.get key = none
  newSteps : ∀ key ∈ snapshot.steps.added, store.steps.get key = none
  attempts : ∀ key ∈ snapshot.attempts.added, store.attempts.get key = none
  newApprovals : ∀ key ∈ snapshot.approvals.added, store.approvals.get key = none
  pending : snapshot.duplicateRun store = none
  runs : ∀ entry ∈ snapshot.runs.expected,
    store.runs.revisionAt R.runRevision entry.1 = entry.2
  steps : ∀ entry ∈ snapshot.steps.expected,
    store.steps.revisionAt R.stepRevision entry.1 = entry.2
  approvals : ∀ entry ∈ snapshot.approvals.expected,
    store.approvals.revisionAt R.approvalVersion entry.1 = entry.2

theorem validateUniqueness_eq_ok_iff {snapshot : Snapshot R} {store : RecordStore R} :
    snapshot.validateUniqueness store = .ok () ↔
      (∀ key ∈ snapshot.definitions.added, store.definitions.get key = none) ∧
      (∀ key ∈ snapshot.runs.added, store.runs.get key = none) ∧
      (∀ key ∈ snapshot.steps.added, store.steps.get key = none) ∧
      (∀ key ∈ snapshot.attempts.added, store.attempts.get key = none) ∧
      (∀ key ∈ snapshot.approvals.added, store.approvals.get key = none) ∧
      snapshot.duplicateRun store = none := by
  have hpending : (match snapshot.duplicateRun store with
      | some runId => Except.error (.uniquenessError "pending_approval" runId)
      | none => .ok () : Except PersistenceError Unit) = .ok () ↔
        snapshot.duplicateRun store = none := by
    cases snapshot.duplicateRun store <;> simp
  simp only [validateUniqueness, Except.bind_unit_eq_ok_iff, StagedTable.checkAdded_eq_ok_iff,
    hpending]

theorem validateRevisions_eq_ok_iff {snapshot : Snapshot R} {store : RecordStore R} :
    snapshot.validateRevisions store = .ok () ↔
      (∀ entry ∈ snapshot.runs.expected,
        store.runs.revisionAt R.runRevision entry.1 = entry.2) ∧
      (∀ entry ∈ snapshot.steps.expected,
        store.steps.revisionAt R.stepRevision entry.1 = entry.2) ∧
      (∀ entry ∈ snapshot.approvals.expected,
        store.approvals.revisionAt R.approvalVersion entry.1 = entry.2) := by
  simp only [validateRevisions, Except.bind_unit_eq_ok_iff, StagedTable.checkExpected_eq_ok_iff]

theorem fits_iff {snapshot : Snapshot R} {store : RecordStore R} :
    snapshot.Fits store ↔
      snapshot.validateUniqueness store = .ok () ∧ snapshot.validateRevisions store = .ok () := by
  rw [validateUniqueness_eq_ok_iff, validateRevisions_eq_ok_iff]
  constructor
  · exact fun h => ⟨⟨h.definitions, h.newRuns, h.newSteps, h.attempts, h.newApprovals, h.pending⟩,
      h.runs, h.steps, h.approvals⟩
  · intro ⟨⟨hdefinitions, hruns, hsteps, hattempts, happrovals, hpending⟩, hrun, hstep, happroval⟩
    exact ⟨hdefinitions, hruns, hsteps, hattempts, happrovals, hpending, hrun, hstep, happroval⟩

end Snapshot

/-! ## Committing -/

namespace UnitOfWork

/-- Opening a unit of work. -/
def enter (store : RecordStore R) : UnitOfWork R := ⟨.fromStore store, false, false⟩

/-- `_ensure_writable`. -/
def ensureWritable (unit : UnitOfWork R) : Except PersistenceError Unit :=
  if unit.rolledBack then .error (.unitOfWorkStateError "unit of work is already rolled back")
  else if unit.committed then .error (.unitOfWorkStateError "unit of work is already committed")
  else .ok ()

/-- A call of an `add` or a `save` method. -/
def stage (unit : UnitOfWork R) (op : RecordOp R) : Except PersistenceError (UnitOfWork R) := do
  unit.ensureWritable
  return { unit with snapshot := ← unit.snapshot.stage op }

/-- `commit`, on the unit of work and the store it was opened over. -/
def commit : EStateM PersistenceError (UnitOfWork R × RecordStore R) Unit := do
  let (unit, store) ← get
  if unit.rolledBack then
    throw (.unitOfWorkStateError "cannot commit a rolled back unit of work")
  if unit.committed then
    throw (.unitOfWorkStateError "cannot commit an already committed unit of work")
  ofExcept (unit.snapshot.validateUniqueness store)
  ofExcept (unit.snapshot.validateRevisions store)
  set (unit, unit.snapshot.publish store)
  modify fun (unit, store) => ({ unit with committed := true }, store)

/-- `rollback`, which does nothing the second time. -/
def rollback (unit : UnitOfWork R) : Except PersistenceError (UnitOfWork R) :=
  if unit.rolledBack then .ok unit
  else if unit.committed then
    .error (.unitOfWorkStateError "cannot rollback a committed unit of work")
  else .ok { unit with rolledBack := true }

/-- A commit of a unit of work that is still open. -/
theorem commit_open {unit : UnitOfWork R} (hrolled : unit.rolledBack = false)
    (hcommitted : unit.committed = false) (store : RecordStore R) :
    commit (unit, store) =
      match (do unit.snapshot.validateUniqueness store; unit.snapshot.validateRevisions store :
        Except PersistenceError Unit) with
      | .error error => .error error (unit, store)
      | .ok _ => .ok () ({ unit with committed := true }, unit.snapshot.publish store) := by
  obtain ⟨snapshot, committed, rolledBack⟩ := unit
  subst hrolled hcommitted
  have hchecks : commit (⟨snapshot, false, false⟩, store) =
      (do ofExcept (snapshot.validateUniqueness store)
          ofExcept (snapshot.validateRevisions store)
          set (UnitOfWork.mk snapshot false false, snapshot.publish store)
          modify fun (unit, store) => ({ unit with committed := true }, store) :
        EStateM PersistenceError (UnitOfWork R × RecordStore R) Unit)
        (⟨snapshot, false, false⟩, store) := rfl
  rw [hchecks]
  show _ = match (do snapshot.validateUniqueness store; snapshot.validateRevisions store :
    Except PersistenceError Unit) with | .error error => _ | .ok _ => _
  cases snapshot.validateUniqueness store with
  | error error => rfl
  | ok _ =>
      cases snapshot.validateRevisions store with
      | error error => rfl
      | ok _ => rfl

/-- A commit that raises leaves the unit of work and the store alone; otherwise the
snapshot fits the store and is published. -/
theorem commit_cases (unit : UnitOfWork R) (store : RecordStore R) :
    (∃ error, commit (unit, store) = .error error (unit, store)) ∨
      (unit.committed = false ∧ unit.snapshot.Fits store ∧
        commit (unit, store) =
          .ok () ({ unit with committed := true }, unit.snapshot.publish store)) := by
  rcases hrolled : unit.rolledBack with _ | _
  case true =>
    obtain ⟨snapshot, committed, rolledBack⟩ := unit
    subst hrolled
    exact Or.inl ⟨.unitOfWorkStateError "cannot commit a rolled back unit of work", rfl⟩
  case false =>
  rcases hcommitted : unit.committed with _ | _
  case true =>
    obtain ⟨snapshot, committed, rolledBack⟩ := unit
    subst hrolled hcommitted
    exact Or.inl ⟨.unitOfWorkStateError "cannot commit an already committed unit of work", rfl⟩
  case false =>
  rw [commit_open hrolled hcommitted]
  cases hvalid : (do unit.snapshot.validateUniqueness store
                     unit.snapshot.validateRevisions store : Except PersistenceError Unit) with
  | error error => exact Or.inl ⟨error, rfl⟩
  | ok _ =>
      obtain ⟨hunique, hrevisions⟩ := Except.bind_unit_eq_ok_iff.mp hvalid
      refine Or.inr ⟨rfl, Snapshot.fits_iff.mpr ⟨hunique, hrevisions⟩, ?_⟩
      simp only [hrolled]

end UnitOfWork

end ChangePilot
