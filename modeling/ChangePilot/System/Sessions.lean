import ChangePilot.Persistence.MemoryUnit

/-!
# Units of work over one store

A `Session` is a store with every unit of work that was opened over it.  The calls
on them are interleaved in any order; a call that raises leaves behind what it
left in the objects.  With each unit of work goes the list of changes that were
staged in it, which no definition looks at.

`Reachable` is every session that the calls lead to, where each call satisfies a
condition on the session before it.
-/

namespace ChangePilot

variable {R : Records}

structure Opened (R : Records) where
  unit : UnitOfWork R
  staged : List (RecordOp R)

structure Session (R : Records) where
  store : RecordStore R
  units : List (Opened R)

/-- A call on the unit of work with the given number, or the opening of another. -/
inductive Call (R : Records) where
  | enter
  | stage (index : ℕ) (op : RecordOp R)
  | read (index : ℕ)
  | commit (index : ℕ)
  | rollback (index : ℕ)

namespace Opened

/-- Stage a change; one that is refused is not recorded. -/
def stage (opened : Opened R) (op : RecordOp R) : Opened R :=
  match opened.unit.stage op with
  | .ok unit => ⟨unit, opened.staged ++ [op]⟩
  | .error _ => opened

def rollback (opened : Opened R) : Opened R :=
  match opened.unit.rollback with
  | .ok unit => { opened with unit }
  | .error _ => opened

end Opened

namespace Session

def start (store : RecordStore R) : Session R := ⟨store, []⟩

/-- The session after a call. -/
def next (session : Session R) : Call R → Session R
  | .enter => { session with units := session.units ++ [⟨.enter session.store, []⟩] }
  | .stage index op => { session with units := session.units.modify index (·.stage op) }
  | .read _ => session
  | .commit index =>
      match session.units[index]? with
      | none => session
      | some opened =>
          match UnitOfWork.commit (opened.unit, session.store) with
          | .ok _ (unit, store) | .error _ (unit, store) =>
              ⟨store, session.units.set index { opened with unit }⟩
  | .rollback index => { session with units := session.units.modify index Opened.rollback }

/-- The sessions that calls lead to which satisfy `permitted`. -/
inductive Reachable (initial : RecordStore R) (permitted : Session R → Call R → Prop) :
    Session R → Prop where
  | start : Reachable initial permitted (Session.start initial)
  | next {session : Session R} (h : Reachable initial permitted session) (call : Call R)
      (hcall : permitted session call) : Reachable initial permitted (session.next call)

end Session

/-! ## What holds of each unit of work -/

/-- The snapshot stands for the changes staged in it, and every save is guarded. -/
structure Opened.Faithful (opened : Opened R) : Prop where
  publishes : ∀ store, opened.unit.snapshot.publish store =
    opened.staged.foldl RecordStore.apply store
  runs : opened.unit.snapshot.runs.Guarded
  steps : opened.unit.snapshot.steps.Guarded
  approvals : opened.unit.snapshot.approvals.Guarded

namespace Opened

theorem faithful_enter (store : RecordStore R) : Faithful (⟨.enter store, []⟩ : Opened R) where
  publishes := Snapshot.publish_fromStore store
  runs := StagedTable.guarded_copy _
  steps := StagedTable.guarded_copy _
  approvals := StagedTable.guarded_copy _

theorem Faithful.of_unit {opened : Opened R} (h : opened.Faithful) {unit : UnitOfWork R}
    (hunit : unit.snapshot = opened.unit.snapshot) :
    Faithful ({ opened with unit } : Opened R) where
  publishes store := by rw [hunit]; exact h.publishes store
  runs := hunit ▸ h.runs
  steps := hunit ▸ h.steps
  approvals := hunit ▸ h.approvals

/-- A change that is staged was let through by a unit of work that is still open. -/
theorem stage_cases (opened : Opened R) (op : RecordOp R) :
    opened.stage op = opened ∨
      (opened.unit.committed = false ∧ opened.stage op =
        ⟨{ opened.unit with snapshot := opened.unit.snapshot.record op },
          opened.staged ++ [op]⟩) := by
  unfold stage
  cases hstage : opened.unit.stage op with
  | error error => exact Or.inl rfl
  | ok unit =>
      simp only [UnitOfWork.stage, Except.bind_eq_ok_iff] at hstage
      obtain ⟨_, hwritable, snapshot, hsnapshot, hunit⟩ := hstage
      obtain ⟨_, rfl⟩ := Snapshot.stage_eq_ok_iff.mp hsnapshot
      have hcommitted : opened.unit.committed = false := by
        unfold UnitOfWork.ensureWritable at hwritable
        split at hwritable
        case isTrue => simp at hwritable
        case isFalse =>
          split at hwritable
          case isTrue => simp at hwritable
          case isFalse hopen => simpa using hopen
      refine Or.inr ⟨hcommitted, ?_⟩
      rw [← Except.pure_eq_ok_iff.mp hunit]

theorem rollback_cases (opened : Opened R) :
    opened.rollback = opened ∨ (opened.unit.committed = false ∧
      opened.rollback = { opened with unit := { opened.unit with rolledBack := true } }) := by
  unfold rollback UnitOfWork.rollback
  cases opened.unit.rolledBack with
  | true => exact Or.inl rfl
  | false =>
      cases hcommitted : opened.unit.committed with
      | true => exact Or.inl rfl
      | false =>
          refine Or.inr ⟨rfl, ?_⟩
          simp [hcommitted]

theorem Faithful.stage {opened : Opened R} (h : opened.Faithful) (op : RecordOp R) :
    (opened.stage op).Faithful := by
  rcases opened.stage_cases op with heq | ⟨_, heq⟩
  · rw [heq]; exact h
  · rw [heq]
    constructor
    case publishes =>
      intro store
      rw [List.foldl_append, ← h.publishes]
      exact Snapshot.publish_record opened.unit.snapshot op store
    case runs =>
      cases op with
      | addRun run => exact h.runs.add run
      | saveRun run expected => exact h.runs.save run expected
      | _ => exact h.runs
    case steps =>
      cases op with
      | addStep step => exact h.steps.add step
      | saveStep step expected => exact h.steps.save step expected
      | _ => exact h.steps
    case approvals =>
      cases op with
      | addApproval approval => exact h.approvals.add approval
      | saveApproval approval expected => exact h.approvals.save approval expected
      | _ => exact h.approvals

theorem Faithful.rollback {opened : Opened R} (h : opened.Faithful) : opened.rollback.Faithful := by
  rcases opened.rollback_cases with heq | ⟨_, heq⟩
  · rw [heq]; exact h
  · rw [heq]; exact h.of_unit rfl

end Opened

/-! ## What a call does -/

namespace Session

/-- A commit either publishes the snapshot into a store that it fits, or changes nothing. -/
theorem next_commit_cases (session : Session R) (index : ℕ) :
    session.next (.commit index) = session ∨
      ∃ opened, session.units[index]? = some opened ∧ opened.unit.committed = false ∧
        opened.unit.snapshot.Fits session.store ∧
        session.next (.commit index) =
          ⟨opened.unit.snapshot.publish session.store,
            session.units.set index
              { opened with unit := { opened.unit with committed := true } }⟩ := by
  simp only [next]
  cases hopened : session.units[index]? with
  | none => exact Or.inl rfl
  | some opened =>
      rcases UnitOfWork.commit_cases opened.unit session.store with
        ⟨error, hcommit⟩ | ⟨hcommitted, hfits, hcommit⟩
      · refine Or.inl ?_
        simp only [hcommit]
        have hsame : session.units.set index opened = session.units := by
          obtain ⟨hlt, hget⟩ := List.getElem?_eq_some_iff.mp hopened
          rw [← hget, List.set_getElem_self]
        exact congrArg (Session.mk session.store) hsame
      · exact Or.inr ⟨opened, rfl, hcommitted, hfits, by simp only [hcommit]⟩

end Session

end ChangePilot
