import ChangePilot.Persistence.SqliteSpecs

/-!
# The contract of the ports

What the ports ask of a caller: a run, a step or a request is saved at most once in
a unit of work, and from a row that can be seen, and the rows that a staged row
refers to are in the store or staged.  The changes that keep to it are staged alike
by both adapters (`stageEach_stageSqlite`), and the snapshot they lead to is one
whose statements a commit can write (`Kept.contracted`).
-/

namespace ChangePilot

/-! ## The contract -/

/-- The contract of a change that is staged. -/
def RecordOp.Respects (snapshot : Snapshot runtimeRecords) : RecordOp runtimeRecords → Prop
  | .saveRun run _ =>
      (snapshot.runs.rows.get run.runId).isSome ∧ run.runId ∉ snapshot.runs.saved
  | .saveStep step _ =>
      (snapshot.steps.rows.get step.key).isSome ∧ step.key ∉ snapshot.steps.saved
  | .saveApproval request _ => request.key ∉ snapshot.approvals.saved
  | _ => True

/-- Every change that is staged, one after another, keeps to the contract. -/
def Contract : Snapshot runtimeRecords → List (RecordOp runtimeRecords) → Prop
  | _, [] => True
  | snapshot, op :: rest =>
      (snapshot.refusal op = none → op.Respects snapshot) ∧
        Contract ((snapshot.stage op).toOption.getD snapshot) rest

/-- The rows that the added rows and the events refer to are in the store or added. -/
structure References (store : RecordStore runtimeRecords) (snapshot : Snapshot runtimeRecords) :
    Prop where
  stepRuns : ∀ step ∈ snapshot.steps.addedRows,
    (store.runs.get step.runId).isSome ∨ step.runId ∈ snapshot.runs.added
  attemptSteps : ∀ attempt ∈ snapshot.attempts.addedRows,
    (store.steps.get (stepKey attempt.runId attempt.stepId)).isSome ∨
      stepKey attempt.runId attempt.stepId ∈ snapshot.steps.added
  approvalRuns : ∀ request ∈ snapshot.approvals.addedRows,
    (store.runs.get request.runId).isSome ∨ request.runId ∈ snapshot.runs.added
  eventRuns : ∀ event ∈ snapshot.pendingEvents,
    (store.runs.get event.runId).isSome ∨ event.runId ∈ snapshot.runs.added
  eventSteps : ∀ event ∈ snapshot.pendingEvents, ∀ stepId, event.stepId = some stepId →
    (store.steps.get (stepKey event.runId stepId)).isSome ∨
      stepKey event.runId stepId ∈ snapshot.steps.added

/-- No row is removed from a store. -/
structure Grown (before after : RecordStore runtimeRecords) : Prop where
  runs : ∀ key, (before.runs.get key).isSome → (after.runs.get key).isSome
  steps : ∀ key, (before.steps.get key).isSome → (after.steps.get key).isSome
  attempts : ∀ key, (before.attempts.get key).isSome → (after.attempts.get key).isSome
  approvals : ∀ key, (before.approvals.get key).isSome → (after.approvals.get key).isSome

theorem Grown.refl (store : RecordStore runtimeRecords) : Grown store store :=
  ⟨fun _ h => h, fun _ h => h, fun _ h => h, fun _ h => h⟩

/-! ## Staging under the contract -/

section

variable {snapshot next : Snapshot runtimeRecords} {op : RecordOp runtimeRecords}
  {base store : RecordStore runtimeRecords}

theorem stage_eq_error {error : PersistenceError} (h : snapshot.refusal op = some error) :
    snapshot.stage op = .error error := by
  unfold Snapshot.stage
  rw [h]

theorem stage_eq_ok (h : snapshot.refusal op = none) :
    snapshot.stage op = .ok (snapshot.record op) := by
  unfold Snapshot.stage
  rw [h]

/-- A change that keeps to the contract is no second save. -/
theorem RecordOp.Respects.secondSave_eq_none (h : op.Respects snapshot) :
    op.secondSave snapshot = none := by
  cases op with
  | saveRun run expected => exact if_neg fun hsaved => h.2 (StagedTable.hasSaved_iff.mp hsaved)
  | saveStep step expected => exact if_neg fun hsaved => h.2 (StagedTable.hasSaved_iff.mp hsaved)
  | saveApproval request expected =>
      exact if_neg fun hsaved => h (StagedTable.hasSaved_iff.mp hsaved)
  | _ => rfl

theorem stageSqlite_eq_stage (h : snapshot.refusal op = none → op.Respects snapshot) :
    snapshot.stageSqlite op = snapshot.stage op := by
  unfold Snapshot.stageSqlite
  cases hrefusal : snapshot.refusal op with
  | some error => rw [stage_eq_error hrefusal]; rfl
  | none =>
      rw [stage_eq_ok hrefusal]
      refine (Except.bind_of_eq_ok rfl _).trans ?_
      rw [(h hrefusal).secondSave_eq_none]

/-- Both adapters stage the same changes. -/
theorem stageEach_stageSqlite {ops : List (RecordOp runtimeRecords)} :
    ∀ {snapshot : Snapshot runtimeRecords}, Contract snapshot ops →
      stageEach Snapshot.stageSqlite snapshot ops = stageEach Snapshot.stage snapshot ops := by
  induction ops with
  | nil => exact fun _ => rfl
  | cons op rest ih =>
      intro snapshot ⟨hfirst, hrest⟩
      have hstep : (snapshot.stageSqlite op).toOption.getD snapshot =
          (snapshot.stage op).toOption.getD snapshot := by
        rw [stageSqlite_eq_stage hfirst]
      unfold stageEach at ih ⊢
      rw [List.foldl_cons, List.foldl_cons, hstep]
      exact ih hrest

/-! ## What staging keeps -/

/-- What the contract keeps of a snapshot that was taken of `base`. -/
structure Kept (base : RecordStore runtimeRecords) (snapshot : Snapshot runtimeRecords) : Prop where
  definitions : snapshot.definitions.saved = []
  runs : StagedTable.Prepared runtimeRecords.runRevision base.runs snapshot.runs
  steps : StagedTable.Prepared runtimeRecords.stepRevision base.steps snapshot.steps
  approvals : StagedTable.Prepared runtimeRecords.approvalVersion base.approvals
    snapshot.approvals
  attempts : ∀ key, (snapshot.attempts.rows.get key).isSome →
    (base.attempts.get key).isSome ∨ key ∈ snapshot.attempts.added
  sequences : snapshot.committedEventSequences = base.eventSequences

theorem kept_fromStore (base : RecordStore runtimeRecords) : Kept base (.fromStore base) where
  definitions := rfl
  runs := StagedTable.prepared_copy _
  steps := StagedTable.prepared_copy _
  approvals := StagedTable.prepared_copy _
  attempts _ h := Or.inl h
  sequences := rfl

/-- A method that does not raise has passed its check. -/
theorem passed_of_eq_none {c : Prop} [Decidable c] {error : PersistenceError}
    {rest : Option PersistenceError} (h : (if c then some error else rest) = none) :
    ¬ c ∧ rest = none := by
  split at h
  case isTrue => cases h
  case isFalse hc => exact ⟨hc, h⟩

theorem Kept.record (h : Kept base snapshot) (hrefusal : snapshot.refusal op = none)
    (hrespects : op.Respects snapshot) : Kept base (snapshot.record op) := by
  cases op with
  | addDefinition definition => exact { h with definitions := h.definitions }
  | addRun run => exact { h with runs := h.runs.add run }
  | addStep step => exact { h with steps := h.steps.add step }
  | addApproval request => exact { h with approvals := h.approvals.add request }
  | appendEvent event => exact { h with }
  -- a save passed the check of the version, so it follows on the old one
  | saveRun run expected =>
      have hrevision := not_not.mp (passed_of_eq_none hrefusal).1
      exact { h with runs := h.runs.save hrespects.1 hrespects.2 hrevision }
  | saveStep step expected =>
      have hrevision := not_not.mp (passed_of_eq_none hrefusal).1
      exact { h with steps := h.steps.save hrespects.1 hrespects.2 hrevision }
  | saveApproval request expected =>
      obtain ⟨hrevision, hrest⟩ := passed_of_eq_none hrefusal
      have hpresent := (passed_of_eq_none hrest).1
      have hvisible : (snapshot.approvals.rows.get request.key).isSome := by
        rw [← Option.not_isNone, Bool.not_eq_true']
        exact Bool.not_eq_true _ ▸ hpresent
      exact { h with
        approvals := h.approvals.save hvisible hrespects (not_not.mp hrevision) }
  -- an attempt has no version: it is enough that it is stored or added
  | addAttempt attempt =>
      refine { h with attempts := fun key hkey => ?_ }
      show _ ∨ key ∈ (snapshot.attempts.add attempt).added
      rw [StagedTable.mem_added_add]
      rcases StagedTable.isSome_get_of_put hkey with heq | hold
      · exact Or.inr (Or.inr heq)
      · exact (h.attempts key hold).imp_right Or.inl
  -- a saved attempt was visible, or `save_attempt` would have refused it
  | saveAttempt attempt =>
      refine { h with attempts := fun key hkey => ?_ }
      rcases StagedTable.isSome_get_of_put hkey with heq | hold
      · have hpresent := (passed_of_eq_none hrefusal).1
        refine h.attempts key ?_
        rw [← heq, ← Option.not_isNone, Bool.not_eq_true']
        exact Bool.not_eq_true _ ▸ hpresent
      · exact h.attempts key hold

theorem Kept.stageEach {ops : List (RecordOp runtimeRecords)} :
    ∀ {snapshot : Snapshot runtimeRecords}, Kept base snapshot → Contract snapshot ops →
      Kept base (ChangePilot.stageEach Snapshot.stage snapshot ops) := by
  induction ops with
  | nil => exact fun h _ => h
  | cons op rest ih =>
      intro snapshot h ⟨hfirst, hrest⟩
      show Kept base (ChangePilot.stageEach Snapshot.stage
        ((snapshot.stage op).toOption.getD snapshot) rest)
      refine ih ?_ hrest
      cases hrefusal : snapshot.refusal op with
      | some error => rw [stage_eq_error hrefusal]; exact h
      | none => rw [stage_eq_ok hrefusal]; exact h.record hrefusal (hfirst hrefusal)

/-- A snapshot that was staged under the contract can be written to any store that its
own store has grown into. -/
theorem Kept.contracted (h : Kept base snapshot) (hgrown : Grown base store)
    (hreferences : References store snapshot)
    (hsequences : ∀ runId, base.runs.get runId = none → base.eventSequences runId = 0) :
    Contracted store snapshot where
  definitions := h.definitions
  runs := h.runs.mono hgrown.runs
  steps := h.steps.mono hgrown.steps
  approvals := h.approvals.mono hgrown.approvals
  attempts key hkey :=
    (h.attempts key (snapshot.attempts.present key (List.mem_append_right _ hkey))).imp_left
      (hgrown.attempts key)
  stepRuns := hreferences.stepRuns
  attemptSteps := hreferences.attemptSteps
  approvalRuns := hreferences.approvalRuns
  eventRuns := hreferences.eventRuns
  eventSteps := hreferences.eventSteps
  sequences runId hnone := by
    rw [h.sequences]
    refine hsequences runId (Option.not_isSome_iff_eq_none.mp fun hsome => ?_)
    have := hgrown.runs runId hsome
    rw [hnone] at this
    cases this

end

end ChangePilot
