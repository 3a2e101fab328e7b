import ChangePilot.Persistence.Memory
import ChangePilot.Persistence.MemoryUnit

/-!
# The runtime's units of work are memory units of work

The services run their units of work as transactions on the memory store, which
keep the writes in the order in which they are staged.  Here the store's records
instantiate the ports, and the transaction's validation and publication are those
of the snapshot in which the same writes were staged (`validate_iff_fits`,
`publish_stageAll`).
-/

namespace ChangePilot

/-- The records of the runtime. -/
abbrev runtimeRecords : Records where
  Definition := WorkflowDefinition
  Run := WorkflowRun
  Step := StepRun
  Attempt := StepAttempt
  Approval := ApprovalRequest
  Event := AuditEvent
  definitionId := WorkflowDefinition.definitionId
  definitionVersion := WorkflowDefinition.version
  runId := WorkflowRun.runId
  runRevision run := run.revision
  stepRunId := StepRun.runId
  stepId := StepRun.stepId
  stepRevision step := step.revision
  attemptRunId := StepAttempt.runId
  attemptStepId := StepAttempt.stepId
  attemptNo := StepAttempt.attemptNo
  attemptPhase attempt := attempt.phase.value
  approvalRunId := ApprovalRequest.runId
  approvalKey := ApprovalRequest.id
  approvalVersion request := request.version
  approvalStatus request := request.status.value
  eventRunId := AuditEvent.runId

/-- The store, as the ports see it. -/
def MemoryStore.records (store : MemoryStore) : RecordStore runtimeRecords where
  definitions := store.definitions
  runs := store.runs
  steps := store.steps
  attempts := store.attempts
  approvals := store.approvals
  events runId := (store.events runId).map fun entry => ⟨entry.sequence, entry.event⟩
  eventSequences := store.eventSequences

/-- The call that stages a write. -/
def Write.op : Write → RecordOp runtimeRecords
  | addDefinition definition => .addDefinition definition
  | addRun run => .addRun run
  | saveRun run expectedRevision => .saveRun run expectedRevision
  | addStep step => .addStep step
  | saveStep step expectedRevision => .saveStep step expectedRevision
  | addAttempt attempt => .addAttempt attempt
  | saveAttempt attempt => .saveAttempt attempt
  | addApproval request => .addApproval request
  | saveApproval request expectedVersion => .saveApproval request expectedVersion
  | appendEvent event => .appendEvent event

/-- The snapshot of `base` after the writes. -/
def stageAll (base : MemoryStore) (writes : List Write) : Snapshot runtimeRecords :=
  writes.foldl (fun snapshot write => snapshot.record write.op) (.fromStore base.records)

/-! ## Publication -/

theorem MemoryStore.records_appendEvent (store : MemoryStore) (event : AuditEvent) :
    (store.appendEvent event).records = store.records.appendEvent event := by
  have hevents : ∀ runId, (store.appendEvent event).records.events runId =
      (store.records.appendEvent event).events runId := by
    intro runId
    by_cases hrun : runId = event.runId
    · subst hrun
      simp [records, MemoryStore.appendEvent, RecordStore.appendEvent]
    · simp [records, MemoryStore.appendEvent, RecordStore.appendEvent, hrun]
  exact RecordStore.mk.injEq .. |>.mpr
    ⟨rfl, rfl, rfl, rfl, rfl, funext hevents, rfl⟩

theorem MemoryStore.records_apply (store : MemoryStore) (write : Write) :
    (store.apply write).records = store.records.apply write.op := by
  cases write with
  | appendEvent event => exact store.records_appendEvent event
  | _ => rfl

theorem MemoryStore.records_view (writes : List Write) : ∀ store : MemoryStore,
    (Tx.view MemoryStore.apply store writes).records =
      (writes.map Write.op).foldl RecordStore.apply store.records := by
  induction writes with
  | nil => exact fun store => rfl
  | cons write rest ih =>
      intro store
      rw [Tx.view_cons, ih, store.records_apply]
      rfl

/-- A snapshot with writes staged in it publishes what the transaction commits. -/
theorem publish_stageAll (base now : MemoryStore) (writes : List Write) :
    (stageAll base writes).publish now.records =
      (Tx.view MemoryStore.apply now writes).records := by
  rw [MemoryStore.records_view]
  have hrecord : ∀ (rest : List Write) (snapshot : Snapshot runtimeRecords),
      (rest.foldl (fun snapshot write => snapshot.record write.op) snapshot).publish now.records =
        (rest.map Write.op).foldl RecordStore.apply (snapshot.publish now.records) := by
    intro rest
    induction rest with
    | nil => exact fun snapshot => rfl
    | cons write rest ih =>
        intro snapshot
        rw [List.foldl_cons, ih, Snapshot.publish_record]
        rfl
  rw [stageAll, hrecord, Snapshot.publish_fromStore]

/-! ## Validation -/

/-- The keys that a fold over the writes has collected are those of a staged table. -/
structure Collected {V K : Type} [LinearOrder K] {key : V → K} (t : StagedTable key)
    (state : List K × List (K × ℕ)) : Prop where
  added : ∀ k, k ∈ t.added ↔ k ∈ state.1
  expected : t.expected = state.2.map fun entry => (entry.1, (entry.2 : ℤ))

section

variable {V K : Type} [LinearOrder K] {key : V → K} {t : StagedTable key}
  {state : List K × List (K × ℕ)}

theorem Collected.add (h : Collected t state) (v : V) :
    Collected (t.add v) (key v :: state.1, state.2) where
  added k := by
    show k ∈ t.added.insert (key v) ↔ _
    rw [List.mem_insert_iff, List.mem_cons, h.added]
  expected := h.expected

theorem Collected.save (h : Collected t state) (v : V) (expected : ℕ) :
    Collected (t.save v expected)
      (if key v ∈ state.1 ∨ key v ∈ state.2.map Prod.fst then state
        else (state.1, state.2 ++ [(key v, expected)])) := by
  have hkeys : t.expected.map Prod.fst = state.2.map Prod.fst := by
    rw [h.expected, List.map_map]
    rfl
  constructor
  case added =>
    intro k
    rw [StagedTable.added_save, h.added]
    split <;> rfl
  case expected =>
    rw [StagedTable.expected_save]
    by_cases hknown : key v ∈ state.1 ∨ key v ∈ state.2.map Prod.fst
    · rw [if_pos (by rwa [h.added, hkeys]), if_pos hknown, h.expected]
    · rw [if_neg (by rwa [h.added, hkeys]), if_neg hknown, h.expected, List.map_append]
      rfl

end

/-- What `expectedRevisions` collects from writes, from a state on. -/
def collect {K : Type} [DecidableEq K] (added : Write → Option K)
    (saved : Write → Option (K × ℕ)) (state : List K × List (K × ℕ)) (write : Write) :
    List K × List (K × ℕ) :=
  match added write, saved write with
  | some key, _ => (key :: state.1, state.2)
  | none, some (key, revision) =>
      if key ∈ state.1 ∨ key ∈ state.2.map Prod.fst then state
      else (state.1, state.2 ++ [(key, revision)])
  | none, none => state

theorem collected_foldl {V K : Type} [LinearOrder K] {key : V → K}
    (table : Snapshot runtimeRecords → StagedTable key) {added : Write → Option K}
    {saved : Write → Option (K × ℕ)}
    (hstep : ∀ snapshot state (write : Write), Collected (table snapshot) state →
      Collected (table (snapshot.record write.op)) (collect added saved state write))
    (writes : List Write) : ∀ snapshot state, Collected (table snapshot) state →
      Collected (table (writes.foldl (fun snapshot write => snapshot.record write.op) snapshot))
        (writes.foldl (collect added saved) state) := by
  induction writes with
  | nil => exact fun _ _ h => h
  | cons write rest ih => exact fun snapshot state h => ih _ _ (hstep snapshot state write h)

theorem collected_copy {V K : Type} [LinearOrder K] {key : V → K} (rows : KeyedTable key) :
    Collected (StagedTable.copy rows) ([], []) where
  added _ := Iff.rfl
  expected := rfl

variable (base : MemoryStore) (writes : List Write)

theorem collected_runs : Collected (stageAll base writes).runs
    (writes.foldl (collect Write.addedRun Write.savedRun) ([], [])) := by
  refine collected_foldl Snapshot.runs (fun snapshot state write h => ?_) writes _ _
    (collected_copy base.runs)
  cases write with
  | addRun run => exact h.add run
  | saveRun run expected => exact h.save run expected
  | _ => exact h

theorem collected_steps : Collected (stageAll base writes).steps
    (writes.foldl (collect Write.addedStep Write.savedStep) ([], [])) := by
  refine collected_foldl Snapshot.steps (fun snapshot state write h => ?_) writes _ _
    (collected_copy base.steps)
  cases write with
  | addStep step => exact h.add step
  | saveStep step expected => exact h.save step expected
  | _ => exact h

theorem collected_approvals : Collected (stageAll base writes).approvals
    (writes.foldl (collect Write.addedApproval Write.savedApproval) ([], [])) := by
  refine collected_foldl Snapshot.approvals (fun snapshot state write h => ?_) writes _ _
    (collected_copy base.approvals)
  cases write with
  | addApproval request => exact h.add request
  | saveApproval request expected => exact h.save request expected
  | _ => exact h

/-- The writes that `validateRevisions` looks at are the locks of the snapshot. -/
theorem forM_checkRevision_iff {V K : Type} [LinearOrder K] {key : V → K}
    {t : StagedTable key} {state : List K × List (K × ℕ)} (h : Collected t state)
    (store : KeyedTable key) (revision : V → ℕ) (kind : String) (identifier : K → String) :
    (state.2.forM fun entry => checkRevision kind (identifier entry.1) entry.2
        ((store.get entry.1).map revision)) = .ok () ↔
      ∀ entry ∈ t.expected, store.revisionAt (fun v => (revision v : ℤ)) entry.1 = entry.2 := by
  rw [Except.forM_eq_ok_iff, h.expected, List.forall_mem_map]
  refine forall₂_congr fun entry _ => ?_
  unfold checkRevision KeyedTable.revisionAt
  cases store.get entry.1 with
  | none => simp
  | some v => simp

theorem validateRevisions_iff (now : MemoryStore) :
    validateRevisions writes now = .ok () ↔
      (stageAll base writes).validateRevisions now.records = .ok () := by
  rw [Snapshot.validateRevisions_eq_ok_iff]
  unfold validateRevisions
  rw [Except.bind_unit_eq_ok_iff, Except.bind_unit_eq_ok_iff]
  exact and_congr
    (forM_checkRevision_iff (collected_runs base writes) now.runs WorkflowRun.revision "run" id)
    (and_congr
      (forM_checkRevision_iff (collected_steps base writes) now.steps StepRun.revision "step"
        Snapshot.pairIdentifier)
      (forM_checkRevision_iff (collected_approvals base writes) now.approvals
        ApprovalRequest.version "approval" fun key => (ofLex key).2))

/-- The keys that a table has added are those of the added records among the writes, where
every write adds its record to the table or leaves the added keys as they are. -/
theorem mem_added_stageAll {V K : Type} [LinearOrder K] {key : V → K}
    (table : Snapshot runtimeRecords → StagedTable key) (added : Write → Option K)
    (hbase : (table (.fromStore base.records)).added = [])
    (hstep : ∀ snapshot (write : Write),
      (∃ row, table (snapshot.record write.op) = (table snapshot).add row ∧
        added write = some (key row)) ∨
      (table (snapshot.record write.op)).added = (table snapshot).added ∧ added write = none)
    (k : K) : k ∈ (table (stageAll base writes)).added ↔ ∃ write ∈ writes, added write = some k := by
  have hrecord (snapshot : Snapshot runtimeRecords) (write : Write) :
      k ∈ (table (snapshot.record write.op)).added ↔
        k ∈ (table snapshot).added ∨ added write = some k := by
    rcases hstep snapshot write with ⟨row, htable, hadded⟩ | ⟨hsame, hnone⟩
    · rw [htable, hadded, StagedTable.mem_added_add, Option.some_inj]
    · rw [hsame, hnone]
      simp
  have hfold : ∀ (rest : List Write) (snapshot : Snapshot runtimeRecords),
      k ∈ (table (rest.foldl (fun snapshot write => snapshot.record write.op) snapshot)).added ↔
        k ∈ (table snapshot).added ∨ ∃ write ∈ rest, added write = some k := by
    intro rest
    induction rest with
    | nil => simp
    | cons write rest ih =>
        intro snapshot
        rw [List.foldl_cons, ih, hrecord, or_assoc, List.exists_mem_cons_iff]
  rw [stageAll, hfold, hbase]
  simp

def Write.addedDefinition : Write → Option DefinitionKey
  | addDefinition definition => some definition.key
  | _ => none

def Write.addedAttempt : Write → Option AttemptKey
  | addAttempt attempt => some attempt.key
  | _ => none

/-- What a write adds is not in the store. -/
theorem Write.uniqueness_eq_none_iff (write : Write) (store : MemoryStore) :
    write.uniqueness store = none ↔
      (∀ key, write.addedDefinition = some key → store.definitions.get key = none) ∧
      (∀ key, write.addedRun = some key → store.runs.get key = none) ∧
      (∀ key, write.addedStep = some key → store.steps.get key = none) ∧
      (∀ key, write.addedAttempt = some key → store.attempts.get key = none) ∧
      ∀ key, write.addedApproval = some key → store.approvals.get key = none := by
  cases write <;>
    simp [uniqueness, addedDefinition, addedRun, addedStep, addedAttempt, addedApproval]

theorem validateUniqueness_eq_ok_iff (now : MemoryStore) :
    validateUniqueness writes now = .ok () ↔
      (∀ write ∈ writes, write.uniqueness now = none) ∧
        duplicatePendingRun (Tx.view MemoryStore.apply now writes) = none := by
  have hfailures : (List.range 5).flatMap (fun table =>
      (writes.filter fun write => write.table = table).filterMap (Write.uniqueness now)) = [] ↔
        ∀ write ∈ writes, write.uniqueness now = none := by
    simp only [List.flatMap_eq_nil_iff, List.filterMap_eq_nil_iff, List.mem_filter,
      decide_eq_true_eq, List.mem_range]
    constructor
    · intro h write hwrite
      have htable : write.table < 5 := by cases write <;> simp [Write.table]
      exact h _ htable write ⟨hwrite, rfl⟩
    · exact fun h _ _ write hwrite => h write hwrite.1
  rw [← hfailures]
  unfold validateUniqueness
  generalize (List.range 5).flatMap _ = failures
  cases failures with
  | cons error rest => simp
  | nil => cases duplicatePendingRun (Tx.view MemoryStore.apply now writes) <;> simp

/-- Only a pending request has the text of one. -/
theorem ApprovalStatus.value_eq_pending_iff (status : ApprovalStatus) :
    status.value = "pending" ↔ status = .pending := by
  cases status <;> decide

/-- Pending requests are counted alike. -/
theorem duplicateRun_eq_none_iff (snapshot : Snapshot runtimeRecords) (now after : MemoryStore)
    (h : snapshot.publish now.records = after.records) :
    snapshot.duplicateRun now.records = none ↔ duplicatePendingRun after = none := by
  have happrovals : snapshot.approvals.publish now.records.approvals = after.approvals :=
    congrArg RecordStore.approvals h
  have hcount : ∀ runId, snapshot.pendingCount now.records runId =
      (pendingRuns after).count runId := by
    intro runId
    unfold Snapshot.pendingCount pendingRuns
    rw [happrovals, List.count_eq_countP, List.countP_map, List.countP_filter,
      List.countP_eq_length_filter]
    congr 1
    refine List.filter_congr fun request _ => ?_
    show decide (request.status.value = "pending" ∧ request.runId = runId) = _
    rw [Bool.eq_iff_iff]
    simp only [Bool.and_eq_true, decide_eq_true_eq, Function.comp_apply, beq_iff_eq,
      request.status.value_eq_pending_iff]
    exact and_comm
  unfold Snapshot.duplicateRun duplicatePendingRun
  rw [happrovals, List.find?_eq_none, List.find?_eq_none]
  simp only [hcount, decide_eq_true_eq]
  constructor
  · intro hnone runId hrun
    unfold pendingRuns at hrun
    obtain ⟨request, hrequest, rfl⟩ := List.mem_map.mp hrun
    exact hnone _ (List.mem_map_of_mem (List.mem_filter.mp hrequest).1)
  · intro hnone runId _ hmany
    exact hnone runId (List.count_pos_iff.mp (by omega)) hmany

theorem mem_added_definitions (k) : k ∈ (stageAll base writes).definitions.added ↔
    ∃ write ∈ writes, Write.addedDefinition write = some k := by
  refine mem_added_stageAll base writes Snapshot.definitions Write.addedDefinition rfl
    (fun snapshot write => ?_) k
  cases write with
  | addDefinition row => exact .inl ⟨row, rfl, rfl⟩
  | _ => exact .inr ⟨rfl, rfl⟩

theorem mem_added_runs (k) : k ∈ (stageAll base writes).runs.added ↔
    ∃ write ∈ writes, Write.addedRun write = some k := by
  refine mem_added_stageAll base writes Snapshot.runs Write.addedRun rfl
    (fun snapshot write => ?_) k
  cases write with
  | addRun row => exact .inl ⟨row, rfl, rfl⟩
  | saveRun row expected => exact .inr ⟨StagedTable.added_save .., rfl⟩
  | _ => exact .inr ⟨rfl, rfl⟩

theorem mem_added_steps (k) : k ∈ (stageAll base writes).steps.added ↔
    ∃ write ∈ writes, Write.addedStep write = some k := by
  refine mem_added_stageAll base writes Snapshot.steps Write.addedStep rfl
    (fun snapshot write => ?_) k
  cases write with
  | addStep row => exact .inl ⟨row, rfl, rfl⟩
  | saveStep row expected => exact .inr ⟨StagedTable.added_save .., rfl⟩
  | _ => exact .inr ⟨rfl, rfl⟩

theorem mem_added_attempts (k) : k ∈ (stageAll base writes).attempts.added ↔
    ∃ write ∈ writes, Write.addedAttempt write = some k := by
  refine mem_added_stageAll base writes Snapshot.attempts Write.addedAttempt rfl
    (fun snapshot write => ?_) k
  cases write with
  | addAttempt row => exact .inl ⟨row, rfl, rfl⟩
  | _ => exact .inr ⟨rfl, rfl⟩

theorem mem_added_approvals (k) : k ∈ (stageAll base writes).approvals.added ↔
    ∃ write ∈ writes, Write.addedApproval write = some k := by
  refine mem_added_stageAll base writes Snapshot.approvals Write.addedApproval rfl
    (fun snapshot write => ?_) k
  cases write with
  | addApproval row => exact .inl ⟨row, rfl, rfl⟩
  | saveApproval row expected => exact .inr ⟨StagedTable.added_save .., rfl⟩
  | _ => exact .inr ⟨rfl, rfl⟩

/-- The validation of a transaction is that of the snapshot. -/
theorem validate_iff_fits (now : MemoryStore) :
    validate writes now = .ok () ↔ (stageAll base writes).Fits now.records := by
  rw [Snapshot.fits_iff, validate, Except.bind_unit_eq_ok_iff, ← validateRevisions_iff,
    validateUniqueness_eq_ok_iff, Snapshot.validateUniqueness_eq_ok_iff,
    duplicateRun_eq_none_iff _ now _ (publish_stageAll base now writes)]
  refine and_congr_left fun _ => ?_
  simp only [Write.uniqueness_eq_none_iff, mem_added_definitions, mem_added_runs, mem_added_steps,
    mem_added_attempts, mem_added_approvals, forall_exists_index, and_imp]
  constructor
  · intro hall
    obtain ⟨h, hpending⟩ := hall
    exact ⟨fun k w hw hk => (h w hw).1 k hk, fun k w hw hk => (h w hw).2.1 k hk,
      fun k w hw hk => (h w hw).2.2.1 k hk, fun k w hw hk => (h w hw).2.2.2.1 k hk,
      fun k w hw hk => (h w hw).2.2.2.2 k hk, hpending⟩
  · intro hall
    obtain ⟨hdefinitions, hruns, hsteps, hattempts, happrovals, hpending⟩ := hall
    exact ⟨fun w hw => ⟨fun k => hdefinitions k w hw, fun k => hruns k w hw,
      fun k => hsteps k w hw, fun k => hattempts k w hw, fun k => happrovals k w hw⟩, hpending⟩

end ChangePilot
