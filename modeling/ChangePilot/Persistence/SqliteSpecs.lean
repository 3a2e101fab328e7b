import ChangePilot.Persistence.Sqlite

/-!
# What a SQLite commit writes

For a snapshot whose changes keep to the contract of the ports, and whose numbers fit into
their columns, the outcome of the statements of a commit: which of them stops it, if any,
and what the database holds afterwards (`commitSqlite_spec`).

The tables come one after the other, and there is one lemma for what becomes of each
(`publishRuns_spec` and those that follow it).  A statement of these snapshots can only fail
in two ways: an update does not find the revision that is expected, or the index of the
pending requests stops an insertion.  The first depends on the table before the commit, since
the added keys are new (`updateRevised_spec`); the second on the requests with the added ones
among them, since what replaces a request is not pending (`insertApprovals`,
`admitApprovalRow_replacement`).  The logs can always be written, because the numbers of
their events follow on each other.

Conversely, the numbers of whatever has been committed fit (`fits_of_commitSqlite`).
-/

namespace ChangePilot

open KeyedTable (insertAll updateAll)

/-! ## Numbers -/

theorem bindNumbers_eq_ok_iff {numbers : List ℤ} :
    bindNumbers numbers = .ok () ↔ ∀ n ∈ numbers, FitsColumn n := by
  unfold bindNumbers
  split
  case isTrue h => exact iff_of_true rfl h
  case isFalse h => exact iff_of_false nofun h

theorem fitsColumn_of_le {m n : ℕ} (hle : m ≤ n) (h : FitsColumn n) : FitsColumn m := by
  unfold FitsColumn at *
  omega

/-- The numbers that the statements of a commit bind fit into their columns. -/
structure Snapshot.NumbersFit (snapshot : Snapshot runtimeRecords) (store : RecordStore runtimeRecords) :
    Prop where
  definitions : ∀ definition ∈ snapshot.definitions.addedRows, FitsColumn definition.version
  addedRuns : ∀ run ∈ snapshot.runs.addedRows,
    ∀ n ∈ ↑(snapshot.committedEventSequences run.runId) :: run.numbers, FitsColumn n
  savedRuns : ∀ change ∈ snapshot.runs.replacements,
    ∀ n ∈ change.2 :: change.1.numbers, FitsColumn n
  addedSteps : ∀ step ∈ snapshot.steps.addedRows, ∀ n ∈ step.numbers, FitsColumn n
  savedSteps : ∀ change ∈ snapshot.steps.replacements,
    ∀ n ∈ change.2 :: change.1.numbers, FitsColumn n
  addedAttempts : ∀ attempt ∈ snapshot.attempts.addedRows, FitsColumn attempt.attemptNo
  savedAttempts : ∀ attempt ∈ snapshot.attempts.savedRows, FitsColumn attempt.attemptNo
  addedApprovals : ∀ request ∈ snapshot.approvals.addedRows, FitsColumn request.version
  savedApprovals : ∀ change ∈ snapshot.approvals.replacements,
    ∀ n ∈ [change.2, change.1.version], FitsColumn n
  events : ∀ event ∈ snapshot.pendingEvents, ∀ n ∈ event.numbers, FitsColumn n
  sequences : ∀ runId ∈ snapshot.pendingRunIds,
    FitsColumn ↑(store.eventSequences runId + (snapshot.pendingOf runId).length)

/-! ## Pending requests -/

/-- No two pending requests of one run. -/
def UniquePending (t : KeyedTable runtimeRecords.approvalIdentity) : Prop :=
  ∀ a ∈ t.rows, ∀ b ∈ t.rows, a.status = .pending → b.status = .pending → a.runId = b.runId → a = b

theorem approvalState_eq_true (request : ApprovalRequest) : approvalState request = true := by
  have hconsistent := request.consistent
  unfold approvalState
  rw [Bool.and_eq_true]
  refine ⟨request.bindingDigest.property, ?_⟩
  unfold approvalFieldsConsistent at hconsistent
  cases hstatus : request.status <;> rw [hstatus] at hconsistent <;> simp_all

theorem pendingIndex_eq_true_iff {t : KeyedTable runtimeRecords.approvalIdentity}
    {request : ApprovalRequest} :
    pendingIndex t request = true ↔ (request.status = .pending → ∀ other ∈ t.rows,
      other.status = .pending → other.runId = request.runId → other.key = request.key) := by
  unfold pendingIndex
  simp only [Bool.or_eq_true, decide_eq_true_eq, List.all_eq_true]
  constructor
  · intro h hpending other hother hstatus hrun
    rcases h with h | h
    · exact absurd hpending h
    · rcases h other hother with (h | h) | h
      · exact h
      · exact absurd hstatus h
      · exact absurd hrun h
  · intro h
    by_cases hpending : request.status = .pending
    · refine Or.inr fun other hother => ?_
      by_cases hstatus : other.status = .pending
      · by_cases hrun : other.runId = request.runId
        · exact Or.inl (Or.inl (h hpending other hother hstatus hrun))
        · exact Or.inr hrun
      · exact Or.inl (Or.inr hstatus)
    · exact Or.inl hpending

/-- The index lets a new row in exactly when the table with it still has no two
pending requests of one run. -/
theorem pendingIndex_iff_uniquePending {t : KeyedTable runtimeRecords.approvalIdentity}
    {request : ApprovalRequest} (h : UniquePending t) (hnew : t.get request.key = none) :
    pendingIndex t request = true ↔ UniquePending (t.put request) := by
  have hne : ∀ other ∈ t.rows, other.key ≠ request.key := (t.get_eq_none_iff).mp hnew
  rw [pendingIndex_eq_true_iff]
  constructor
  · intro hindex a ha b hb hpending hpending' hrun
    rcases KeyedTable.mem_put.mp ha with rfl | ⟨ha, _⟩
    · rcases KeyedTable.mem_put.mp hb with rfl | ⟨hb, _⟩
      · rfl
      · exact absurd (hindex hpending b hb hpending' hrun.symm) (hne b hb)
    · rcases KeyedTable.mem_put.mp hb with rfl | ⟨hb, _⟩
      · rename_i hold _
        exact absurd (hindex hpending' a hold hpending hrun) (hne a hold)
      · exact h a ha b hb hpending hpending' hrun
  · intro hunique hpending other hother hstatus hrun
    have hput : other ∈ (t.put request).rows :=
      KeyedTable.mem_put.mpr (Or.inr ⟨hother, hne other hother⟩)
    rw [hunique other hput request (KeyedTable.mem_put.mpr (Or.inl rfl)) hstatus hpending hrun]

/-- Adding further rows does not make two pending requests of a run one. -/
theorem UniquePending.of_foldl_put {rows : List ApprovalRequest}
    {t : KeyedTable runtimeRecords.approvalIdentity}
    (hnew : ∀ request ∈ rows, t.get request.key = none)
    (h : UniquePending (rows.foldl KeyedTable.put t)) : UniquePending t := by
  have hkept : ∀ request ∈ t.rows, request ∈ (rows.foldl KeyedTable.put t).rows := by
    intro request hrequest
    refine KeyedTable.mem_foldl_put_of_unique rows (fun other hother heq => ?_) (.inr hrequest)
    exact absurd heq.symm ((t.get_eq_none_iff).mp (hnew other hother) request hrequest)
  exact fun a ha b hb => h a (hkept a ha) b (hkept b hb)

/-- Inserting new requests ends well exactly when no run has two pending ones in the
end; otherwise the index stops it. -/
theorem insertApprovals {allow : KeyedTable runtimeRecords.approvalIdentity → ApprovalRequest →
      Except SqlFailure Unit} {rows : List ApprovalRequest}
    (hallow : ∀ t, ∀ request ∈ rows, t.get request.key = none →
      allow t request = if pendingIndex t request then .ok ()
        else .error (.unique "approval_requests.run_id")) :
    ∀ {t : KeyedTable runtimeRecords.approvalIdentity}, UniquePending t →
      (rows.map ApprovalRequest.key).Nodup → (∀ request ∈ rows, t.get request.key = none) →
      (UniquePending (rows.foldl KeyedTable.put t) ∧
          insertAll allow t rows = .ok (rows.foldl KeyedTable.put t)) ∨
        (¬ UniquePending (rows.foldl KeyedTable.put t) ∧
          insertAll allow t rows = .error (.unique "approval_requests.run_id")) := by
  induction rows with
  | nil => exact fun {t} h _ _ => Or.inl ⟨h, rfl⟩
  | cons request rest ih =>
      intro t h hnodup hnew
      obtain ⟨hrequest, hrest⟩ := List.nodup_cons.mp hnodup
      have hfirst := hnew request (List.mem_cons_self ..)
      -- the other requests stay new once the first is in the table
      have hfresh : ∀ other ∈ rest, (t.put request).get other.key = none := by
        intro other hother
        have hne : other.key ≠ request.key := fun heq =>
          hrequest (heq ▸ List.mem_map_of_mem hother)
        rw [KeyedTable.get_put_ne t hne]
        exact hnew other (List.mem_cons_of_mem _ hother)
      have hcheck := hallow t request (List.mem_cons_self ..) hfirst
      rw [insertAll, List.foldl_cons]
      -- the partial index decides whether the first request goes in
      by_cases hindex : pendingIndex t request = true
      · rw [if_pos hindex] at hcheck
        rw [Except.bind_of_eq_ok hcheck]
        exact ih (fun t other hother => hallow t other (List.mem_cons_of_mem _ hother))
          ((pendingIndex_iff_uniquePending h hfirst).mp hindex) hrest hfresh
      · rw [if_neg hindex] at hcheck
        rw [Except.bind_of_eq_error hcheck]
        refine Or.inr ⟨fun hunique => hindex ?_, rfl⟩
        -- a pending pair among the first rows is never undone by later ones
        exact (pendingIndex_iff_uniquePending h hfirst).mpr (hunique.of_foldl_put hfresh)

/-! ## Updates -/

section

variable {V K : Type} [LinearOrder K] {key : V → K} {revision : V → ℤ} {base : KeyedTable key}
  {t : StagedTable key}

/-- The revisions that a snapshot expects are those of the table. -/
def Current (revision : V → ℤ) (base : KeyedTable key) (t : StagedTable key) : Prop :=
  ∀ entry ∈ t.expected, base.revisionAt revision entry.1 = entry.2

/-- The updates of a table after its inserts: they publish the copy when the expected
revisions are those of the table, and raise otherwise. -/
theorem updateRevised_spec (numbers : V → List ℤ)
    (allow : KeyedTable key → V → Except SqlFailure Unit)
    (aggregateType : String) (identifier : K → String)
    (h : StagedTable.Prepared revision base t) (hnew : ∀ k ∈ t.added, base.get k = none)
    (hfits : ∀ change ∈ t.replacements, ∀ n ∈ change.2 :: numbers change.1, FitsColumn n)
    (hallow : ∀ (table : KeyedTable key), ∀ change ∈ t.replacements, ∀ old : V,
      revision old = change.2 → allow table change.1 = .ok ()) :
    (Current revision base t ∧ updateRevised numbers revision allow aggregateType identifier
        (t.addedRows.foldl KeyedTable.put base) t.replacements = .ok (t.publish base)) ∨
      (¬ Current revision base t ∧ ∃ id expected actual,
        updateRevised numbers revision allow aggregateType identifier
          (t.addedRows.foldl KeyedTable.put base) t.replacements =
            .error (.raised (.optimisticLockError aggregateType id expected actual))) := by
  -- the inserts before the updates leave every saved row as the base has it
  have hall := h.forall_replacements hnew fun k hk => StagedTable.get_foldl_addedRows hk
  have hmatches : ∀ change : V × ℤ,
      KeyedTable.Matches (fun change : V × ℤ => key change.1)
        (fun old change => decide (revision old = change.2))
        (t.addedRows.foldl KeyedTable.put base) change ↔
      ∃ old, (t.addedRows.foldl KeyedTable.put base).get (key change.1) = some old ∧
        revision old = change.2 := by
    intro change
    simp only [KeyedTable.Matches, decide_eq_true_eq]
  have hallow' : ∀ (table : KeyedTable key), ∀ change ∈ t.replacements, ∀ old : V,
      decide (revision old = change.2) = true → allow table change.1 = .ok () :=
    fun table change hchange old hold => hallow table change hchange old (of_decide_eq_true hold)
  by_cases hcurrent : Current revision base t
  · refine Or.inl ⟨hcurrent, ?_⟩
    have hok : ∃ u, updateRevised numbers revision allow aggregateType identifier
        (t.addedRows.foldl KeyedTable.put base) t.replacements = .ok u ∧
          u.mapRows (fun v => v) (fun _ => rfl) = (t.replacements.map Prod.fst).foldl
            KeyedTable.put ((t.addedRows.foldl KeyedTable.put base).mapRows (fun v => v)
              (fun _ => rfl)) := by
      unfold updateRevised
      exact KeyedTable.updateAll_eq_ok (f := fun v => v) (g := Prod.fst) (fun _ => rfl)
        (fun _ _ => rfl) (fun _ _ => rfl)
        (fun change hchange => bindNumbers_eq_ok_iff.mpr (hfits change hchange))
        hallow' h.nodup_replacements
        fun change hchange => (hmatches change).mpr (hall.mpr hcurrent change hchange)
    obtain ⟨u, hu, hrows⟩ := hok
    rw [KeyedTable.mapRows_self, KeyedTable.mapRows_self, h.map_replacements,
      ← StagedTable.publish_eq_foldl] at hrows
    rw [hu, hrows]
  -- some saved row is not at the revision it expects, and its update finds no row
  · refine Or.inr ⟨hcurrent, ?_⟩
    obtain ⟨change, hchange, hnot⟩ : ∃ change ∈ t.replacements,
        ¬ KeyedTable.Matches (fun change : V × ℤ => key change.1)
          (fun old change => decide (revision old = change.2))
          (t.addedRows.foldl KeyedTable.put base) change := by
      by_contra hnone
      push Not at hnone
      exact hcurrent (hall.mp fun change hchange => (hmatches change).mp (hnone change hchange))
    have herror : ∃ (table : KeyedTable key) (change : V × ℤ),
        updateRevised numbers revision allow aggregateType identifier
        (t.addedRows.foldl KeyedTable.put base) t.replacements =
          .error (.raised (.optimisticLockError aggregateType (identifier (key change.1)) change.2
            (table.revisionAt revision (key change.1)))) := by
      unfold updateRevised
      refine KeyedTable.updateAll_eq_error ?_ ?_ hallow' h.nodup_replacements ⟨change, hchange, hnot⟩
      · exact fun _ _ => rfl
      · exact fun change hchange => bindNumbers_eq_ok_iff.mpr (hfits change hchange)
    obtain ⟨table, failing, hfail⟩ := herror
    exact ⟨_, _, _, hfail⟩

end

section

variable {runs : KeyedTable RunRow.key} {t : StagedTable runtimeRecords.runId}
  {committed : String → ℕ}

/-- The table of runs after its inserts. -/
def insertedRuns (runs : KeyedTable RunRow.key) (t : StagedTable runtimeRecords.runId)
    (committed : String → ℕ) : KeyedTable RunRow.key :=
  (t.addedRows.map fun run => (⟨run, committed run.runId⟩ : RunRow)).foldl KeyedTable.put runs

theorem runColumn_insertedRuns :
    runColumn (insertedRuns runs t committed) =
      t.addedRows.foldl KeyedTable.put (runColumn runs) := by
  unfold runColumn insertedRuns
  rw [KeyedTable.mapRows_foldl_put, List.map_map]
  show (t.addedRows.map fun run => run).foldl KeyedTable.put _ = _
  rw [List.map_id']

theorem get_runColumn (runs : KeyedTable RunRow.key) (runId : String) :
    (runColumn runs).get runId = (runs.get runId).map RunRow.run :=
  KeyedTable.get_mapRows _ runId

theorem isSome_get_runColumn (runs : KeyedTable RunRow.key) (runId : String) :
    ((runColumn runs).get runId).isSome = (runs.get runId).isSome := by
  rw [get_runColumn, Option.isSome_map]

/-- A new run's row starts with the number that its log has reached, which is none. -/
theorem lastSequence_insertedRuns (hcommitted : ∀ runId ∈ t.added, committed runId = 0)
    (hnew : ∀ runId ∈ t.added, (runColumn runs).get runId = none) (runId : String) :
    lastSequence (insertedRuns runs t committed) runId = lastSequence runs runId := by
  have hnodup : ((t.addedRows.map fun run => (⟨run, committed run.runId⟩ : RunRow)).map
      RunRow.key).Nodup := by
    rw [List.map_map]
    exact t.nodup_addedRows
  unfold lastSequence insertedRuns
  rw [KeyedTable.get_foldl_put_of_nodup hnodup]
  cases hfind : (t.addedRows.map fun run => (⟨run, committed run.runId⟩ : RunRow)).find?
      fun row => row.key = runId with
  | none => rw [Option.none_or]
  | some row =>
      obtain ⟨run, hrun, rfl⟩ := List.mem_map.mp (List.mem_of_find?_eq_some hfind)
      have hfound := List.find?_some hfind
      have hkey : run.runId = runId := of_decide_eq_true hfound
      have hadded : runId ∈ t.added := by
        rw [← t.map_key_addedRows, ← hkey]
        exact List.mem_map_of_mem hrun
      have hnone : runs.get runId = none := by
        have := hnew runId hadded
        rwa [get_runColumn, Option.map_eq_none_iff] at this
      rw [Option.some_or, hnone, Option.map_some, Option.getD_some, hkey, hcommitted _ hadded]
      rfl

/-- The updates of the runs after their inserts. -/
theorem updateRuns_spec
    (h : StagedTable.Prepared runtimeRecords.runRevision (runColumn runs) t)
    (hnew : ∀ runId ∈ t.added, (runColumn runs).get runId = none)
    (hcommitted : ∀ runId ∈ t.added, committed runId = 0)
    (hfits : ∀ change ∈ t.replacements, ∀ n ∈ change.2 :: change.1.numbers, FitsColumn n) :
    (Current runtimeRecords.runRevision (runColumn runs) t ∧
        ∃ after, updateRuns (insertedRuns runs t committed) t.replacements = .ok after ∧
          runColumn after = t.publish (runColumn runs) ∧
          ∀ runId, lastSequence after runId = lastSequence runs runId) ∨
      (¬ Current runtimeRecords.runRevision (runColumn runs) t ∧ ∃ id expected actual,
        updateRuns (insertedRuns runs t committed) t.replacements =
          .error (.raised (.optimisticLockError "run" id expected actual))) := by
  -- inserting the new runs changes no run that is saved
  have htable : ∀ runId ∉ t.added,
      (runColumn (insertedRuns runs t committed)).get runId = (runColumn runs).get runId := by
    intro runId hrun
    rw [runColumn_insertedRuns, StagedTable.get_foldl_addedRows hrun]
  have hall := h.forall_replacements hnew htable
  -- the `UPDATE` finds a row just when the run is stored at that revision
  have hmatches : ∀ change : WorkflowRun × ℤ,
      KeyedTable.Matches (fun change : WorkflowRun × ℤ => change.1.runId)
        (fun (old : RunRow) change => decide ((old.run.revision : ℤ) = change.2))
        (insertedRuns runs t committed) change ↔
      ∃ old, (runColumn (insertedRuns runs t committed)).get change.1.runId = some old ∧
        runtimeRecords.runRevision old = change.2 := by
    intro change
    rw [get_runColumn]
    constructor
    · rintro ⟨row, hrow, hrevision⟩
      exact ⟨row.run, by rw [hrow, Option.map_some], of_decide_eq_true hrevision⟩
    · rintro ⟨run, hrun, hrevision⟩
      obtain ⟨row, hrow, rfl⟩ := Option.map_eq_some_iff.mp hrun
      exact ⟨row, hrow, decide_eq_true hrevision⟩
  by_cases hcurrent : Current runtimeRecords.runRevision (runColumn runs) t
  · refine Or.inl ⟨hcurrent, ?_⟩
    have hok : ∃ after, updateRuns (insertedRuns runs t committed) t.replacements = .ok after ∧
        runColumn after = (t.replacements.map Prod.fst).foldl KeyedTable.put
          (runColumn (insertedRuns runs t committed)) := by
      unfold updateRuns
      refine KeyedTable.updateAll_eq_ok (f := RunRow.run) (g := Prod.fst) RunRow.runId_run ?_ ?_ ?_
        ?_ h.nodup_replacements ?_
      · exact fun _ _ => rfl
      · exact fun _ _ => rfl
      · exact fun change hchange => bindNumbers_eq_ok_iff.mpr (hfits change hchange)
      · exact fun _ _ _ _ _ => rfl
      · exact fun change hchange => (hmatches change).mpr (hall.mpr hcurrent change hchange)
    obtain ⟨after, hafter, hruns⟩ := hok
    refine ⟨after, hafter, ?_, fun runId => ?_⟩
    · rw [hruns, runColumn_insertedRuns, h.map_replacements, ← StagedTable.publish_eq_foldl]
    -- the updates leave `last_event_sequence` alone; `publishEvents` writes it later
    · have hcolumn : (after.get runId).map RunRow.lastEventSequence =
          ((insertedRuns runs t committed).get runId).map RunRow.lastEventSequence := by
        unfold updateRuns at hafter
        refine KeyedTable.get_updateAll ?_ ?_ hafter runId
        · exact fun _ _ => rfl
        · exact fun _ _ => rfl
      rw [lastSequence, hcolumn]
      exact lastSequence_insertedRuns hcommitted hnew runId
  -- one run was changed since it was read
  · refine Or.inr ⟨hcurrent, ?_⟩
    obtain ⟨change, hchange, hnot⟩ : ∃ change ∈ t.replacements,
        ¬ KeyedTable.Matches (fun change : WorkflowRun × ℤ => change.1.runId)
          (fun (old : RunRow) change => decide ((old.run.revision : ℤ) = change.2))
          (insertedRuns runs t committed) change := by
      by_contra hnone
      push Not at hnone
      exact hcurrent (hall.mp fun change hchange => (hmatches change).mp (hnone change hchange))
    have herror : ∃ (table : KeyedTable RunRow.key) (change : WorkflowRun × ℤ),
        updateRuns (insertedRuns runs t committed) t.replacements =
          .error (.raised (.optimisticLockError "run" change.1.runId change.2
            ((runColumn table).revisionAt runtimeRecords.runRevision change.1.runId))) := by
      unfold updateRuns
      refine KeyedTable.updateAll_eq_error ?_ ?_ ?_ h.nodup_replacements ⟨change, hchange, hnot⟩
      · exact fun _ _ => rfl
      · exact fun change hchange => bindNumbers_eq_ok_iff.mpr (hfits change hchange)
      · exact fun _ _ _ _ _ => rfl
    obtain ⟨table, failing, hfail⟩ := herror
    exact ⟨_, _, _, hfail⟩

end

/-! ## The tables -/

/-- The changes keep to the contract of the ports: every aggregate is saved once, from
a row that is there, and every referenced row is in the store or added. -/
structure Contracted (store : RecordStore runtimeRecords) (snapshot : Snapshot runtimeRecords) :
    Prop where
  definitions : snapshot.definitions.saved = []
  runs : StagedTable.Prepared runtimeRecords.runRevision store.runs snapshot.runs
  steps : StagedTable.Prepared runtimeRecords.stepRevision store.steps snapshot.steps
  approvals : StagedTable.Prepared runtimeRecords.approvalVersion store.approvals
    snapshot.approvals
  attempts : ∀ key ∈ snapshot.attempts.saved,
    (store.attempts.get key).isSome ∨ key ∈ snapshot.attempts.added
  stepRuns : ∀ step ∈ snapshot.steps.addedRows,
    (store.runs.get step.runId).isSome ∨ step.runId ∈ snapshot.runs.added
  attemptSteps : ∀ attempt ∈ snapshot.attempts.addedRows,
    (store.steps.get (stepKey attempt.runId attempt.stepId)).isSome ∨
      stepKey attempt.runId attempt.stepId ∈ snapshot.steps.added
  approvalRuns : ∀ request ∈ snapshot.approvals.addedRows,
    (store.runs.get request.runId).isSome ∨ request.runId ∈ snapshot.runs.added
  eventRuns : ∀ event ∈ snapshot.pendingEvents,
    (store.runs.get event.runId).isSome ∨ event.runId ∈ snapshot.runs.added
  eventSteps : ∀ event ∈ snapshot.pendingEvents, ∀ stepId, event.stepId = some stepId →
    (store.steps.get (stepKey event.runId stepId)).isSome ∨
      stepKey event.runId stepId ∈ snapshot.steps.added
  sequences : ∀ runId, store.runs.get runId = none → snapshot.committedEventSequences runId = 0

/-- No key that the snapshot adds is in the store. -/
structure NewKeys (store : RecordStore runtimeRecords) (snapshot : Snapshot runtimeRecords) :
    Prop where
  definitions : ∀ key ∈ snapshot.definitions.added, store.definitions.get key = none
  runs : ∀ key ∈ snapshot.runs.added, store.runs.get key = none
  steps : ∀ key ∈ snapshot.steps.added, store.steps.get key = none
  attempts : ∀ key ∈ snapshot.attempts.added, store.attempts.get key = none
  approvals : ∀ key ∈ snapshot.approvals.added, store.approvals.get key = none

/-- The tables that the snapshot publishes, with everything else as it was. -/
structure TablesWritten (db : Database) (snapshot : Snapshot runtimeRecords) (after : Database) :
    Prop where
  definitions : after.definitions = snapshot.definitions.publish db.definitions
  runs : runColumn after.runs = snapshot.runs.publish (runColumn db.runs)
  sequences : ∀ runId, lastSequence after.runs runId = lastSequence db.runs runId
  steps : after.steps = snapshot.steps.publish db.steps
  attempts : after.attempts = snapshot.attempts.publish db.attempts
  approvals : after.approvals = snapshot.approvals.publish db.approvals
  auditEvents : after.auditEvents = db.auditEvents

/-- The runs and the steps have the revisions that the snapshot expects. -/
def AggregatesCurrent (store : RecordStore runtimeRecords) (snapshot : Snapshot runtimeRecords) :
    Prop :=
  Current runtimeRecords.runRevision store.runs snapshot.runs ∧
    Current runtimeRecords.stepRevision store.steps snapshot.steps

/-- The requests with the added ones among them, before any is updated. -/
def insertedApprovals (store : RecordStore runtimeRecords) (snapshot : Snapshot runtimeRecords) :
    KeyedTable runtimeRecords.approvalIdentity :=
  snapshot.approvals.addedRows.foldl KeyedTable.put store.approvals

section

variable {db : Database} {snapshot : Snapshot runtimeRecords}

/-- The added rows of a table, whose keys are new, are inserted. -/
theorem insertAdded {V K : Type} [LinearOrder K] {key : V → K} {t : StagedTable key}
    {base : KeyedTable key} {allow : KeyedTable key → V → Except SqlFailure Unit}
    (hnew : ∀ k ∈ t.added, base.get k = none)
    (hallow : ∀ (table : KeyedTable key), ∀ v ∈ t.addedRows, table.get (key v) = none →
      allow table v = .ok ()) :
    insertAll allow base t.addedRows = .ok (t.addedRows.foldl KeyedTable.put base) :=
  KeyedTable.insertAll_eq_ok hallow t.nodup_addedRows fun v hv =>
    hnew (key v) (StagedTable.mem_addedRows.mp hv).1

@[simp] theorem primaryKey_of_get {V K : Type} [LinearOrder K] {key : V → K} {columns : String}
    {table : KeyedTable key} {v : V} (h : table.get (key v) = none) :
    primaryKey columns table v = .ok () := by
  simp [primaryKey, h]

@[simp] theorem references_true : references true = .ok () := rfl

theorem admitApprovalRow_eq (table : KeyedTable runtimeRecords.approvalIdentity)
    (request : ApprovalRequest) :
    admitApprovalRow table request = if pendingIndex table request then .ok ()
      else .error (.unique "approval_requests.run_id") := by
  unfold admitApprovalRow
  rw [approvalState_eq_true]
  cases pendingIndex table request <;> rfl

/-- A run that is in the store or added is there when the runs are published. -/
theorem isSome_get_published {runs : KeyedTable RunRow.key}
    (hruns : runColumn runs = snapshot.runs.publish (runColumn db.runs)) {runId : String}
    (h : (db.load.runs.get runId).isSome ∨ runId ∈ snapshot.runs.added) :
    (runs.get runId).isSome = true := by
  rw [← isSome_get_runColumn, hruns]
  exact StagedTable.isSome_get_publish h

/-- A request that replaces another one is no longer pending. -/
theorem admitApprovalRow_replacement (hcontract : Contracted db.load snapshot)
    {change : ApprovalRequest × ℤ} (hchange : change ∈ snapshot.approvals.replacements)
    {old : ApprovalRequest} (hold : (old.version : ℤ) = change.2)
    (table : KeyedTable runtimeRecords.approvalIdentity) :
    admitApprovalRow table change.1 = .ok () := by
  have hversion : (change.1.version : ℤ) = change.2 + 1 :=
    hcontract.approvals.revision_replacements hchange
  have hpending : change.1.status ≠ .pending := by
    intro hpending
    have hconsistent := change.1.consistent
    rw [hpending] at hconsistent
    have hzero : change.1.version = 0 := hconsistent.1
    omega
  rw [admitApprovalRow_eq, if_pos]
  exact pendingIndex_eq_true_iff.mpr fun h => absurd h hpending

/-! ### One table after the other -/

theorem publishDefinitions_spec (hcontract : Contracted db.load snapshot)
    (hnew : NewKeys db.load snapshot) (hfits : snapshot.NumbersFit db.load) :
    snapshot.publishDefinitions db.definitions =
      .ok (snapshot.definitions.publish db.definitions) := by
  have hinserted : snapshot.publishDefinitions db.definitions =
      .ok (snapshot.definitions.addedRows.foldl KeyedTable.put db.definitions) := by
    refine insertAdded hnew.definitions fun table definition hdefinition h => ?_
    rw [bindNumbers_eq_ok_iff.mpr (by simpa using hfits.definitions definition hdefinition)]
    exact primaryKey_of_get h
  rw [hinserted, StagedTable.publish_eq_foldl, StagedTable.savedRows, hcontract.definitions]
  rfl

/-- The runs: the expected revisions are found, or the update of one raises. -/
theorem publishRuns_spec (hcontract : Contracted db.load snapshot)
    (hnew : NewKeys db.load snapshot) (hfits : snapshot.NumbersFit db.load) :
    (Current runtimeRecords.runRevision db.load.runs snapshot.runs ∧
        ∃ after, snapshot.publishRuns db.runs = .ok after ∧
          runColumn after = snapshot.runs.publish (runColumn db.runs) ∧
          ∀ runId, lastSequence after runId = lastSequence db.runs runId) ∨
      (¬ Current runtimeRecords.runRevision db.load.runs snapshot.runs ∧ ∃ id expected actual,
        snapshot.publishRuns db.runs =
          .error (.raised (.optimisticLockError "run" id expected actual))) := by
  -- a run that is new has no committed events
  have hcommitted : ∀ runId ∈ snapshot.runs.added, snapshot.committedEventSequences runId = 0 :=
    fun runId hadded => hcontract.sequences runId (hnew.runs runId hadded)
  -- the `INSERT` of every new run passes the primary key
  have hinserted : insertAll (fun runs (row : RunRow) => do
        bindNumbers (row.lastEventSequence :: row.run.numbers)
        primaryKey "workflow_runs.run_id" runs row) db.runs
      (snapshot.runs.addedRows.map fun run =>
        (⟨run, snapshot.committedEventSequences run.runId⟩ : RunRow)) =
        .ok (insertedRuns db.runs snapshot.runs snapshot.committedEventSequences) := by
    refine KeyedTable.insertAll_eq_ok (fun table row hrow h => ?_) ?_ fun row hrow => ?_
    · obtain ⟨run, hrun, rfl⟩ := List.mem_map.mp hrow
      rw [bindNumbers_eq_ok_iff.mpr (hfits.addedRuns run hrun)]
      exact primaryKey_of_get h
    · rw [List.map_map]
      exact snapshot.runs.nodup_addedRows
    · obtain ⟨run, hrun, rfl⟩ := List.mem_map.mp hrow
      have hnone := hnew.runs run.runId (StagedTable.mem_addedRows.mp hrun).1
      rwa [show db.load.runs = runColumn db.runs from rfl, get_runColumn,
        Option.map_eq_none_iff] at hnone
  rcases updateRuns_spec hcontract.runs hnew.runs hcommitted hfits.savedRuns with
    ⟨hcurrent, after, hafter, hwritten⟩ | ⟨hcurrent, id, expected, actual, hfail⟩
  · exact Or.inl ⟨hcurrent, after, (Except.bind_of_eq_ok hinserted _).trans hafter, hwritten⟩
  · exact Or.inr ⟨hcurrent, id, expected, actual, (Except.bind_of_eq_ok hinserted _).trans hfail⟩

/-- The steps, in the same way; the runs of the added steps are there. -/
theorem publishSteps_spec {runs : KeyedTable RunRow.key} (hcontract : Contracted db.load snapshot)
    (hnew : NewKeys db.load snapshot) (hfits : snapshot.NumbersFit db.load)
    (hruns : runColumn runs = snapshot.runs.publish (runColumn db.runs)) :
    (Current runtimeRecords.stepRevision db.load.steps snapshot.steps ∧
        snapshot.publishSteps runs db.steps = .ok (snapshot.steps.publish db.steps)) ∨
      (¬ Current runtimeRecords.stepRevision db.load.steps snapshot.steps ∧
        ∃ id expected actual, snapshot.publishSteps runs db.steps =
          .error (.raised (.optimisticLockError "step" id expected actual))) := by
  have hinserted : insertAll (fun steps (step : StepRun) => do
        bindNumbers step.numbers
        primaryKey "step_runs.run_id, step_runs.step_id" steps step
        references (runs.get step.runId).isSome) db.steps snapshot.steps.addedRows =
      .ok (snapshot.steps.addedRows.foldl KeyedTable.put db.steps) := by
    refine insertAdded hnew.steps fun table step hstep h => ?_
    rw [bindNumbers_eq_ok_iff.mpr (hfits.addedSteps step hstep), primaryKey_of_get h,
      isSome_get_published hruns (hcontract.stepRuns step hstep)]
    rfl
  rcases updateRevised_spec StepRun.numbers (fun _ _ => .ok ()) "step" Snapshot.pairIdentifier
      hcontract.steps hnew.steps hfits.savedSteps (fun _ _ _ _ _ => rfl) with
    ⟨hcurrent, hafter⟩ | ⟨hcurrent, id, expected, actual, hfail⟩
  · exact Or.inl ⟨hcurrent, (Except.bind_of_eq_ok hinserted _).trans hafter⟩
  · exact Or.inr ⟨hcurrent, id, expected, actual, (Except.bind_of_eq_ok hinserted _).trans hfail⟩

/-- The attempts that are saved find their rows. -/
theorem updateAttempts (hcontract : Contracted db.load snapshot)
    (hfits : snapshot.NumbersFit db.load)
    {fail : KeyedTable runtimeRecords.attemptIdentity → StepAttempt → SqlFailure} :
    updateAll (fun attempt : StepAttempt => bindNumbers [attempt.attemptNo]) StepAttempt.key
      (fun _ _ => true) (fun _ attempt => attempt) (fun _ _ => .ok ()) fail
      (snapshot.attempts.addedRows.foldl KeyedTable.put db.attempts) snapshot.attempts.savedRows =
        .ok (snapshot.attempts.publish db.attempts) := by
  -- a saved attempt is stored already: `save_attempt` refuses an unknown one
  have hmatches : ∀ attempt ∈ snapshot.attempts.savedRows,
      KeyedTable.Matches StepAttempt.key (fun (_ : StepAttempt) (_ : StepAttempt) => true)
        (snapshot.attempts.addedRows.foldl KeyedTable.put db.attempts) attempt := by
    intro attempt hattempt
    obtain ⟨⟨hsaved, hnew⟩, _⟩ := StagedTable.mem_savedRows.mp hattempt
    have hheld := (hcontract.attempts _ hsaved).resolve_right hnew
    obtain ⟨old, hold⟩ := Option.isSome_iff_exists.mp hheld
    exact ⟨old, (StagedTable.get_foldl_addedRows hnew).trans hold, rfl⟩
  obtain ⟨after, hafter, hrows⟩ : ∃ after, updateAll
      (fun attempt : StepAttempt => bindNumbers [attempt.attemptNo]) StepAttempt.key
      (fun _ _ => true) (fun _ attempt => attempt) (fun _ _ => .ok ()) fail
      (snapshot.attempts.addedRows.foldl KeyedTable.put db.attempts) snapshot.attempts.savedRows =
        .ok after ∧ after.mapRows (fun v => v) (fun _ => rfl) =
          (snapshot.attempts.savedRows.map fun attempt => attempt).foldl KeyedTable.put
            ((snapshot.attempts.addedRows.foldl KeyedTable.put db.attempts).mapRows (fun v => v)
              fun _ => rfl) := by
    refine KeyedTable.updateAll_eq_ok (fun _ => rfl) ?_ ?_ ?_ ?_ snapshot.attempts.nodup_savedRows
      hmatches
    · exact fun _ _ => rfl
    · exact fun _ _ => rfl
    · exact fun attempt hattempt => bindNumbers_eq_ok_iff.mpr
        (by simpa using hfits.savedAttempts attempt hattempt)
    · exact fun _ _ _ _ _ => rfl
  rw [KeyedTable.mapRows_self, KeyedTable.mapRows_self, List.map_id',
    ← StagedTable.publish_eq_foldl] at hrows
  rw [hafter, hrows]

theorem publishAttempts_spec (hcontract : Contracted db.load snapshot)
    (hnew : NewKeys db.load snapshot) (hfits : snapshot.NumbersFit db.load) :
    snapshot.publishAttempts (snapshot.steps.publish db.steps) db.attempts =
      .ok (snapshot.attempts.publish db.attempts) := by
  have hinserted : insertAll (fun attempts (attempt : StepAttempt) => do
        bindNumbers [attempt.attemptNo]
        primaryKey ("step_attempts.run_id, step_attempts.step_id, step_attempts.attempt_no, " ++
          "step_attempts.phase") attempts attempt
        references ((snapshot.steps.publish db.steps).get
          (stepKey attempt.runId attempt.stepId)).isSome)
      db.attempts snapshot.attempts.addedRows =
        .ok (snapshot.attempts.addedRows.foldl KeyedTable.put db.attempts) := by
    refine insertAdded hnew.attempts fun table attempt hattempt h => ?_
    have hbound : bindNumbers [↑attempt.attemptNo] = .ok () :=
      bindNumbers_eq_ok_iff.mpr (by simpa using hfits.addedAttempts attempt hattempt)
    have hstep : ((snapshot.steps.publish db.steps).get
        (stepKey attempt.runId attempt.stepId)).isSome = true :=
      StagedTable.isSome_get_publish (hcontract.attemptSteps attempt hattempt)
    rw [hbound, primaryKey_of_get h, hstep]
    rfl
  exact (Except.bind_of_eq_ok hinserted _).trans (updateAttempts hcontract hfits)

/-- The requests: the index stops an insertion, or an update does not find its version, or
all are written. -/
theorem publishApprovals_spec {runs : KeyedTable RunRow.key}
    (hcontract : Contracted db.load snapshot) (hnew : NewKeys db.load snapshot)
    (hfits : snapshot.NumbersFit db.load) (hunique : UniquePending db.approvals)
    (hruns : runColumn runs = snapshot.runs.publish (runColumn db.runs)) :
    (¬ UniquePending (insertedApprovals db.load snapshot) ∧
        snapshot.publishApprovals runs db.approvals =
          .error (.unique "approval_requests.run_id")) ∨
      (UniquePending (insertedApprovals db.load snapshot) ∧
        ¬ Current runtimeRecords.approvalVersion db.approvals snapshot.approvals ∧
        ∃ id expected actual, snapshot.publishApprovals runs db.approvals =
          .error (.raised (.optimisticLockError "approval" id expected actual))) ∨
      (UniquePending (insertedApprovals db.load snapshot) ∧
        Current runtimeRecords.approvalVersion db.approvals snapshot.approvals ∧
        snapshot.publishApprovals runs db.approvals =
          .ok (snapshot.approvals.publish db.approvals)) := by
  have hallow : ∀ (table : KeyedTable runtimeRecords.approvalIdentity),
      ∀ request ∈ snapshot.approvals.addedRows, table.get request.key = none →
        (do bindNumbers [request.version]
            primaryKey "approval_requests.run_id, approval_requests.approval_key" table request
            admitApprovalRow table request
            references (runs.get request.runId).isSome) =
          if pendingIndex table request then .ok ()
          else .error (.unique "approval_requests.run_id") := by
    -- binding, primary key and run all pass: only the partial index is left
    intro table request hrequest h
    have hbound : bindNumbers [↑request.version] = .ok () :=
      bindNumbers_eq_ok_iff.mpr (by simpa using hfits.addedApprovals request hrequest)
    rw [hbound, primaryKey_of_get h,
      isSome_get_published hruns (hcontract.approvalRuns request hrequest), admitApprovalRow_eq]
    cases pendingIndex table request <;> rfl
  -- the inserts come first, so their failure decides before any version does
  rcases insertApprovals hallow hunique snapshot.approvals.nodup_addedRows
      (fun request hrequest => hnew.approvals _ (StagedTable.mem_addedRows.mp hrequest).1) with
    ⟨hinserted, happrovals⟩ | ⟨hinserted, hfail⟩
  case inr => exact Or.inl ⟨hinserted, Except.bind_of_eq_error hfail _⟩
  case inl =>
  rcases updateRevised_spec (fun request => [request.version]) admitApprovalRow "approval"
      (fun key => (ofLex key).2) hcontract.approvals hnew.approvals hfits.savedApprovals
      (fun table change hchange old hold =>
        admitApprovalRow_replacement hcontract hchange hold table) with
    ⟨hversions, hupdated⟩ | ⟨hversions, id, expected, actual, hfail⟩
  · exact Or.inr (Or.inr ⟨hinserted, hversions,
      (Except.bind_of_eq_ok happrovals _).trans hupdated⟩)
  · exact Or.inr (Or.inl ⟨hinserted, hversions, id, expected, actual,
      (Except.bind_of_eq_ok happrovals _).trans hfail⟩)

/-- Where the statements of the tables stop, if they do. -/
theorem publishTables_spec (hcontract : Contracted db.load snapshot)
    (hnew : NewKeys db.load snapshot) (hfits : snapshot.NumbersFit db.load)
    (hunique : UniquePending db.approvals) :
    (¬ AggregatesCurrent db.load snapshot ∧ ∃ kind id expected actual,
        snapshot.publishTables db =
          .error (.raised (.optimisticLockError kind id expected actual))) ∨
      (AggregatesCurrent db.load snapshot ∧ ¬ UniquePending (insertedApprovals db.load snapshot) ∧
        snapshot.publishTables db = .error (.unique "approval_requests.run_id")) ∨
      (AggregatesCurrent db.load snapshot ∧ UniquePending (insertedApprovals db.load snapshot) ∧
        ¬ Current runtimeRecords.approvalVersion db.approvals snapshot.approvals ∧
        ∃ kind id expected actual, snapshot.publishTables db =
          .error (.raised (.optimisticLockError kind id expected actual))) ∨
      (AggregatesCurrent db.load snapshot ∧ UniquePending (insertedApprovals db.load snapshot) ∧
        Current runtimeRecords.approvalVersion db.approvals snapshot.approvals ∧
        ∃ after, snapshot.publishTables db = .ok after ∧ TablesWritten db snapshot after) := by
  have hdefinitions := publishDefinitions_spec hcontract hnew hfits
  rcases publishRuns_spec hcontract hnew hfits with
    ⟨hruns, after, hafter, hcolumn, hsequences⟩ | ⟨hruns, id, expected, actual, hfail⟩
  case inr =>
    refine Or.inl ⟨fun h => hruns h.1, "run", id, expected, actual, ?_⟩
    exact (Except.bind_of_eq_ok hdefinitions _).trans (Except.bind_of_eq_error hfail _)
  case inl =>
  rcases publishSteps_spec hcontract hnew hfits hcolumn with
    ⟨hsteps, hstepsafter⟩ | ⟨hsteps, id, expected, actual, hfail⟩
  case inr =>
    refine Or.inl ⟨fun h => hsteps h.2, "step", id, expected, actual, ?_⟩
    refine (Except.bind_of_eq_ok hdefinitions _).trans ?_
    exact (Except.bind_of_eq_ok hafter _).trans (Except.bind_of_eq_error hfail _)
  case inl =>
  have hcurrent : AggregatesCurrent db.load snapshot := ⟨hruns, hsteps⟩
  -- everything up to the requests has been written
  have hbegins : snapshot.publishTables db = (do
      let approvals ← snapshot.publishApprovals after db.approvals
      return { db with
        definitions := snapshot.definitions.publish db.definitions
        runs := after
        steps := snapshot.steps.publish db.steps
        attempts := snapshot.attempts.publish db.attempts
        approvals }) := by
    refine (Except.bind_of_eq_ok hdefinitions _).trans ?_
    refine (Except.bind_of_eq_ok hafter _).trans ?_
    refine (Except.bind_of_eq_ok hstepsafter _).trans ?_
    exact Except.bind_of_eq_ok (publishAttempts_spec hcontract hnew hfits) _
  rw [hbegins]
  rcases publishApprovals_spec hcontract hnew hfits hunique hcolumn with
    ⟨hinserted, hfail⟩ | ⟨hinserted, hversions, id, expected, actual, hfail⟩ |
    ⟨hinserted, hversions, happrovals⟩
  · exact Or.inr (Or.inl ⟨hcurrent, hinserted, Except.bind_of_eq_error hfail _⟩)
  · exact Or.inr (Or.inr (Or.inl ⟨hcurrent, hinserted, hversions, "approval", id, expected, actual,
      Except.bind_of_eq_error hfail _⟩))
  · exact Or.inr (Or.inr (Or.inr ⟨hcurrent, hinserted, hversions, _,
      Except.bind_of_eq_ok happrovals _, rfl, hcolumn, hsequences, rfl, rfl, rfl, rfl⟩))

end

/-! ## The events -/

theorem mem_eventsOf {auditEvents : KeyedTable eventKey} {runId : String}
    {entry : Sequenced AuditEvent} :
    entry ∈ eventsOf auditEvents runId ↔ entry ∈ auditEvents.rows ∧ entry.event.runId = runId := by
  unfold eventsOf
  rw [KeyedTable.mem_restrict, decide_eq_true_eq]

theorem eventsOf_put_of_ne {auditEvents : KeyedTable eventKey} {runId : String}
    {entry : Sequenced AuditEvent} (h : entry.event.runId ≠ runId) :
    eventsOf (auditEvents.put entry) runId = eventsOf auditEvents runId := by
  unfold eventsOf
  rw [KeyedTable.restrict_put_of_not (by simpa using h)]
  intro first second hkey
  have hrun : first.event.runId = second.event.runId := congrArg (fun key => (ofLex key).1) hkey
  rw [hrun]

/-- An event with a number above those of its run goes to the end of the log. -/
theorem eventsOf_put_last {auditEvents : KeyedTable eventKey} {entry : Sequenced AuditEvent}
    (hlast : ∀ earlier ∈ eventsOf auditEvents entry.event.runId,
      earlier.sequence < entry.sequence) :
    eventsOf (auditEvents.put entry) entry.event.runId =
      eventsOf auditEvents entry.event.runId ++ [entry] := by
  have hlt : ∀ earlier ∈ eventsOf auditEvents entry.event.runId,
      eventKey earlier < eventKey entry := by
    intro earlier hearlier
    refine Prod.Lex.toLex_lt_toLex.mpr (Or.inr ⟨(mem_eventsOf.mp hearlier).2, ?_⟩)
    exact hlast earlier hearlier
  refine @KeyedTable.rows_eq_of_mem_iff _ _ _ eventKey _ _
    ((auditEvents.put entry).restrict _).sorted ?_ fun other => ?_
  · rw [List.pairwise_append]
    refine ⟨(auditEvents.restrict _).sorted, List.pairwise_singleton .., ?_⟩
    intro earlier hearlier other hother
    rw [List.mem_singleton.mp hother]
    exact hlt earlier hearlier
  · show other ∈ eventsOf (auditEvents.put entry) entry.event.runId ↔ _
    rw [mem_eventsOf, KeyedTable.mem_put, List.mem_append, mem_eventsOf, List.mem_singleton]
    constructor
    · rintro ⟨rfl | ⟨hother, _⟩, hrun⟩
      · exact Or.inr rfl
      · exact Or.inl ⟨hother, hrun⟩
    · rintro (⟨hother, hrun⟩ | rfl)
      · exact ⟨Or.inr ⟨hother, (hlt other (mem_eventsOf.mpr ⟨hother, hrun⟩)).ne⟩, hrun⟩
      · exact ⟨Or.inl rfl, rfl⟩

/-- The events of one run are appended to its log, and the other logs stay. -/
theorem insertEvents {runId : String} {bound : ℕ} {allow : KeyedTable eventKey →
      Sequenced AuditEvent → Except SqlFailure Unit} {events : List AuditEvent}
    (hruns : ∀ event ∈ events, event.runId = runId)
    (hallow : ∀ (table : KeyedTable eventKey) (entry : Sequenced AuditEvent),
      entry.event ∈ events → entry.sequence ≤ bound → table.get (eventKey entry) = none →
        allow table entry = .ok ()) :
    ∀ {auditEvents : KeyedTable eventKey} {last : ℕ}, last + events.length ≤ bound →
      (∀ entry ∈ eventsOf auditEvents runId, entry.sequence ≤ last) →
      ∃ after, insertAll allow auditEvents (numberEvents last events) = .ok after ∧
        eventsOf after runId = eventsOf auditEvents runId ++ numberEvents last events ∧
        ∀ other ≠ runId, eventsOf after other = eventsOf auditEvents other := by
  induction events with
  | nil => exact fun {auditEvents} _ _ _ =>
      ⟨auditEvents, rfl, (List.append_nil _).symm, fun _ _ => rfl⟩
  | cons event rest ih =>
      intro auditEvents last hlength hbound
      rw [List.length_cons] at hlength
      have hrun : event.runId = runId := hruns event (List.mem_cons_self ..)
      -- the number after the last one is not taken in this run's log
      have hfresh : auditEvents.get (eventKey ⟨last + 1, event⟩) = none := by
        rw [KeyedTable.get_eq_none_iff]
        intro entry hentry hkey
        have hsame : entry.event.runId = event.runId := congrArg (fun key => (ofLex key).1) hkey
        have hsequence : entry.sequence = last + 1 := congrArg (fun key => (ofLex key).2) hkey
        have := hbound entry (mem_eventsOf.mpr ⟨hentry, hsame.trans hrun⟩)
        omega
      -- the new entry is the last of the log
      have happended : eventsOf (auditEvents.put ⟨last + 1, event⟩) runId =
          eventsOf auditEvents runId ++ [⟨last + 1, event⟩] := by
        rw [← hrun]
        refine eventsOf_put_last fun earlier hearlier => ?_
        have := hbound earlier (hrun ▸ hearlier)
        exact Nat.lt_succ_of_le this
      have hbound' : ∀ entry ∈ eventsOf (auditEvents.put ⟨last + 1, event⟩) runId,
          entry.sequence ≤ last + 1 := by
        intro entry hentry
        rw [happended, List.mem_append, List.mem_singleton] at hentry
        rcases hentry with hentry | rfl
        · exact Nat.le_succ_of_le (hbound entry hentry)
        · exact Nat.le_refl _
      obtain ⟨after, hafter, hlog, hothers⟩ := ih
        (fun other hother => hruns other (List.mem_cons_of_mem _ hother))
        (fun table entry hentry => hallow table entry (List.mem_cons_of_mem _ hentry))
        (by omega) hbound'
      refine ⟨after, ?_, ?_, fun other hother => ?_⟩
      · rw [numberEvents, insertAll]
        exact (Except.bind_of_eq_ok (hallow auditEvents ⟨last + 1, event⟩
          (List.mem_cons_self ..) (show last + 1 ≤ bound by omega) hfresh) _).trans hafter
      · rw [hlog, happended, List.append_assoc]
        rfl
      · rw [hothers other hother, eventsOf_put_of_ne]
        rw [hrun]
        exact Ne.symm hother

/-- The state of the logs while the events of the snapshot are written. -/
structure LogsWritten (before : Database) (snapshot : Snapshot runtimeRecords)
    (runIds : List String) (after : Database) : Prop where
  definitions : after.definitions = before.definitions
  steps : after.steps = before.steps
  attempts : after.attempts = before.attempts
  approvals : after.approvals = before.approvals
  runs : runColumn after.runs = runColumn before.runs
  events : ∀ runId, eventsOf after.auditEvents runId = eventsOf before.auditEvents runId ++
    if runId ∈ runIds then
      numberEvents (lastSequence before.runs runId) (snapshot.pendingOf runId) else []
  sequences : ∀ runId, lastSequence after.runs runId = lastSequence before.runs runId +
    if runId ∈ runIds then (snapshot.pendingOf runId).length else 0

section

variable {db : Database} {snapshot : Snapshot runtimeRecords}

/-- The events of one run. -/
theorem publishRunEvents_spec {runId : String} {run : WorkflowRun}
    (hrun : db.runs.get runId = some ⟨run, lastSequence db.runs runId⟩)
    (hsteps : ∀ event ∈ snapshot.pendingOf runId, ∀ stepId, event.stepId = some stepId →
      (db.steps.get (stepKey event.runId stepId)).isSome)
    (hbound : ∀ entry ∈ eventsOf db.auditEvents runId, entry.sequence ≤ lastSequence db.runs runId)
    (hnumbers : ∀ event ∈ snapshot.pendingOf runId, ∀ n ∈ event.numbers, FitsColumn n)
    (hlast : FitsColumn ↑(lastSequence db.runs runId + (snapshot.pendingOf runId).length)) :
    ∃ after, snapshot.publishRunEvents db (runId, lastSequence db.runs runId) = .ok after ∧
      LogsWritten db snapshot [runId] after := by
  have hevents : ∀ event ∈ snapshot.pendingOf runId, event.runId = runId := by
    intro event hevent
    have hfilter := List.of_mem_filter hevent
    exact of_decide_eq_true hfilter
  -- every event passes the key, its step and its run
  have hallow : ∀ (table : KeyedTable eventKey) (entry : Sequenced AuditEvent),
      entry.event ∈ snapshot.pendingOf runId →
        entry.sequence ≤ lastSequence db.runs runId + (snapshot.pendingOf runId).length →
        table.get (eventKey entry) = none → db.admitEvent table entry = .ok () := by
    intro table entry hentry hsequence hnone
    have hfits : bindNumbers (↑entry.sequence :: entry.event.numbers) = .ok () :=
      bindNumbers_eq_ok_iff.mpr (List.forall_mem_cons.mpr
        ⟨fitsColumn_of_le hsequence hlast, hnumbers entry.event hentry⟩)
    have hstep : (entry.event.stepId.all fun stepId =>
        (db.steps.get (stepKey entry.event.runId stepId)).isSome) = true := by
      cases hid : entry.event.stepId with
      | none => rfl
      | some stepId => exact hsteps entry.event hentry stepId hid
    rw [Database.admitEvent, hfits, primaryKey_of_get hnone, hstep, hevents _ hentry, hrun]
    rfl
  obtain ⟨auditEvents, hinserted, hlog, hothers⟩ := insertEvents hevents hallow le_rfl hbound
  have hcounted : bindNumbers [↑(lastSequence db.runs runId + (snapshot.pendingOf runId).length)] =
      .ok () := bindNumbers_eq_ok_iff.mpr (by simpa using hlast)
  have hkey : run.runId = runId := (db.runs.get_eq_some_iff.mp hrun).2
  refine ⟨_, (Except.bind_of_eq_ok hinserted _).trans
    ((Except.bind_of_eq_ok hcounted _).trans (by rw [hrun]; rfl)), ?_⟩
  constructor
  -- the run itself is written back unchanged
  case runs =>
    show runColumn (db.runs.put ⟨run, _⟩) = runColumn db.runs
    refine KeyedTable.ext_get fun k => ?_
    rw [get_runColumn, get_runColumn, KeyedTable.get_put]
    split
    case isTrue heq => rw [heq, show RunRow.key ⟨run, _⟩ = runId from hkey, hrun]; rfl
    case isFalse => rfl
  case events =>
    intro other
    by_cases hother : other = runId
    · rw [hother, if_pos (List.mem_singleton_self _), hlog]
    · rw [if_neg fun h => hother (List.mem_singleton.mp h), List.append_nil, hothers other hother]
  case sequences =>
    intro other
    show ((((db.runs.put ⟨run, _⟩).get other).map RunRow.lastEventSequence).getD 0) = _
    rw [KeyedTable.get_put, show RunRow.key ⟨run, _⟩ = runId from hkey]
    by_cases hother : other = runId
    · rw [hother, if_pos rfl, if_pos (List.mem_singleton_self _)]
      rfl
    · rw [if_neg hother, if_neg fun h => hother (List.mem_singleton.mp h)]
      rfl
  all_goals rfl

/-- The logs of one run and then those of other runs. -/
theorem LogsWritten.cons {before middle after : Database} {runId : String} {rest : List String}
    (hfirst : LogsWritten before snapshot [runId] middle)
    (hrest : LogsWritten middle snapshot rest after) (hnew : runId ∉ rest) :
    LogsWritten before snapshot (runId :: rest) after where
  definitions := hrest.definitions.trans hfirst.definitions
  steps := hrest.steps.trans hfirst.steps
  attempts := hrest.attempts.trans hfirst.attempts
  approvals := hrest.approvals.trans hfirst.approvals
  runs := hrest.runs.trans hfirst.runs
  events other := by
    rw [hrest.events, hfirst.events, hfirst.sequences]
    by_cases hother : other = runId
    · rw [hother, if_pos (List.mem_singleton_self _), if_neg hnew,
        if_pos (List.mem_cons_self ..), List.append_nil]
    · rw [if_neg fun h => hother (List.mem_singleton.mp h),
        if_neg fun h => hother (List.mem_singleton.mp h), List.append_nil, Nat.add_zero]
      simp only [List.mem_cons, hother, false_or]
  sequences other := by
    rw [hrest.sequences, hfirst.sequences]
    by_cases hother : other = runId
    · rw [hother, if_pos (List.mem_singleton_self _), if_neg hnew,
        if_pos (List.mem_cons_self ..), Nat.add_zero]
    · rw [if_neg fun h => hother (List.mem_singleton.mp h), Nat.add_zero]
      simp only [List.mem_cons, hother, false_or]

/-- The events of all runs, each allocated after the last event of its run. -/
theorem publishEvents_spec {runIds : List String} :
    ∀ {db : Database}, runIds.Nodup →
      (∀ runId ∈ runIds, ((runColumn db.runs).get runId).isSome) →
      (∀ event ∈ snapshot.pendingEvents, ∀ stepId, event.stepId = some stepId →
        (db.steps.get (stepKey event.runId stepId)).isSome) →
      (∀ runId ∈ runIds, ∀ entry ∈ eventsOf db.auditEvents runId,
        entry.sequence ≤ lastSequence db.runs runId) →
      (∀ event ∈ snapshot.pendingEvents, ∀ n ∈ event.numbers, FitsColumn n) →
      (∀ runId ∈ runIds,
        FitsColumn ↑(lastSequence db.runs runId + (snapshot.pendingOf runId).length)) →
      ∃ after, (runIds.map fun runId => (runId, lastSequence db.runs runId)).foldlM
          snapshot.publishRunEvents db = .ok after ∧ LogsWritten db snapshot runIds after := by
  induction runIds with
  | nil =>
      intro db _ _ _ _ _ _
      refine ⟨db, rfl, rfl, rfl, rfl, rfl, rfl, fun runId => ?_, fun runId => ?_⟩
      · rw [if_neg List.not_mem_nil, List.append_nil]
      · rw [if_neg List.not_mem_nil, Nat.add_zero]
  | cons runId rest ih =>
      intro db hnodup hruns hsteps hbound hnumbers hlast
      obtain ⟨hfirst, hrest⟩ := List.nodup_cons.mp hnodup
      -- the run is stored, with the number of its last event
      obtain ⟨row, hrow⟩ : ∃ row, db.runs.get runId = some row := by
        have hrun := hruns runId (List.mem_cons_self ..)
        rwa [isSome_get_runColumn, Option.isSome_iff_exists] at hrun
      have hrowLast : row.lastEventSequence = lastSequence db.runs runId := by
        rw [lastSequence, hrow]
        rfl
      obtain ⟨middle, hmiddle, hwritten⟩ := @publishRunEvents_spec db snapshot runId
        row.run (by rw [hrow, ← hrowLast])
        (fun event hevent => hsteps event (List.mem_of_mem_filter hevent))
        (hbound runId (List.mem_cons_self ..))
        (fun event hevent => hnumbers event (List.mem_of_mem_filter hevent))
        (hlast runId (List.mem_cons_self ..))
      -- writing one run's events moves no other run's counter
      have hsame : ∀ other ∈ rest, lastSequence middle.runs other = lastSequence db.runs other := by
        intro other hother
        have hne : other ∉ [runId] := fun h => hfirst (List.mem_singleton.mp h ▸ hother)
        rw [hwritten.sequences, if_neg hne, Nat.add_zero]
      obtain ⟨after, hafter, hlogs⟩ := @ih middle hrest
        (fun other hother => by
          rw [hwritten.runs]; exact hruns other (List.mem_cons_of_mem _ hother))
        (by rw [hwritten.steps]; exact hsteps)
        (fun other hother entry hentry => by
          have hne : other ∉ [runId] := fun h => hfirst (List.mem_singleton.mp h ▸ hother)
          rw [hwritten.events, if_neg hne, List.append_nil] at hentry
          rw [hsame other hother]
          exact hbound other (List.mem_cons_of_mem _ hother) entry hentry)
        hnumbers
        (fun other hother => by
          rw [hsame other hother]; exact hlast other (List.mem_cons_of_mem _ hother))
      refine ⟨after, ?_, hwritten.cons hlogs hfirst⟩
      rw [List.map_cons, List.foldlM_cons]
      refine (Except.bind_of_eq_ok hmiddle _).trans ?_
      -- so the numbers allocated before the first write are still the right ones
      have hallocated : rest.map (fun other => (other, lastSequence middle.runs other)) =
          rest.map fun other => (other, lastSequence db.runs other) :=
        List.map_congr_left fun other hother => by rw [hsame other hother]
      rw [← hallocated]
      exact hafter

end

/-! ## The commit -/

section

variable {db : Database} {snapshot : Snapshot runtimeRecords}

theorem allocate_eq (hcontract : Contracted db.load snapshot) :
    snapshot.allocate db =
      .ok (snapshot.pendingRunIds.map fun runId => (runId, lastSequence db.runs runId)) := by
  refine Except.mapM_eq_ok fun runId hrun => ?_
  obtain ⟨event, hevent, rfl⟩ := List.mem_map.mp (List.mem_dedup.mp hrun)
  unfold lastSequence
  cases hrow : db.runs.get event.runId with
  | some row => rfl
  | none =>
      have hadded : event.runId ∈ snapshot.runs.added := by
        refine (hcontract.eventRuns event hevent).resolve_left fun hpresent => ?_
        rw [show db.load.runs = runColumn db.runs from rfl, isSome_get_runColumn, hrow] at hpresent
        cases hpresent
      simp only [if_pos hadded]
      rfl

section

variable {V K : Type} [LinearOrder K] {key : V → K} {t : StagedTable key}
  {table : KeyedTable key} {numbers : K → List ℤ} {error : K → PersistenceError}

theorem selectAdded_eq_ok_iff : Snapshot.selectAdded t table numbers error = .ok () ↔
    ∀ k ∈ t.added, (∀ n ∈ numbers k, FitsColumn n) ∧ table.get k = none := by
  rw [Snapshot.selectAdded, Except.forM_eq_ok_iff]
  refine forall₂_congr fun k _ => ?_
  rw [Except.bind_unit_eq_ok_iff, bindNumbers_eq_ok_iff]
  cases table.get k <;> simp

/-- Where the numbers of the keys fit, a query stops the commit for a key that is there. -/
theorem selectAdded_fails {P : SqlFailure → Prop}
    (hfits : ∀ k ∈ t.added, ∀ n ∈ numbers k, FitsColumn n) (h : ∀ k, P (.raised (error k))) :
    Except.Fails P (Snapshot.selectAdded t table numbers error) := by
  refine Except.Fails.forM fun k hk => ?_
  rw [bindNumbers_eq_ok_iff.mpr (hfits k hk)]
  refine Except.fails_ok.bind fun _ => ?_
  split
  case isTrue => exact Except.fails_error (h k)
  case isFalse => exact Except.fails_ok

end

/-- The numbers of the keys that are looked up. -/
theorem Snapshot.NumbersFit.keys (h : snapshot.NumbersFit db.load) :
    (∀ key ∈ snapshot.definitions.added, ∀ n ∈ [((ofLex key).2 : ℤ)], FitsColumn n) ∧
      ∀ key ∈ snapshot.attempts.added, ∀ n ∈ [((ofLex (ofLex (ofLex key).2).2).1 : ℤ)],
        FitsColumn n := by
  rw [← snapshot.definitions.map_key_addedRows, ← snapshot.attempts.map_key_addedRows]
  simp only [List.forall_mem_map, List.forall_mem_singleton]
  exact ⟨h.definitions, h.addedAttempts⟩

/-- What fails before the tables are written is a new key that is not new. -/
theorem validateKeys_cases (hfits : snapshot.NumbersFit db.load) :
    (NewKeys db.load snapshot ∧ snapshot.validateKeys db = .ok ()) ∨
      (¬ NewKeys db.load snapshot ∧ ∃ failure, (∃ kind id,
          failure = SqlFailure.raised (.uniquenessError kind id)) ∧
        snapshot.validateKeys db = .error failure) := by
  obtain ⟨hdefinitions, hattempts⟩ := hfits.keys
  refine Except.Fails.cases ?_ ?_
  · refine (selectAdded_fails hdefinitions fun _ => ⟨_, _, rfl⟩).bind fun _ => ?_
    refine (selectAdded_fails (by simp) fun _ => ⟨_, _, rfl⟩).bind fun _ => ?_
    refine (selectAdded_fails (by simp) fun _ => ⟨_, _, rfl⟩).bind fun _ => ?_
    refine (selectAdded_fails hattempts fun _ => ⟨_, _, rfl⟩).bind fun _ => ?_
    exact selectAdded_fails (by simp) fun _ => ⟨_, _, rfl⟩
  · simp only [Snapshot.validateKeys, Except.bind_unit_eq_ok_iff, selectAdded_eq_ok_iff]
    constructor
    · intro ⟨hdefinitions, hruns, hsteps, hattempts, happrovals⟩
      exact ⟨fun k hk => (hdefinitions k hk).2, fun k hk => (hruns k hk).2,
        fun k hk => (hsteps k hk).2, fun k hk => (hattempts k hk).2, fun k hk => (happrovals k hk).2⟩
    · intro h
      exact ⟨fun k hk => ⟨hdefinitions k hk, h.definitions k hk⟩,
        fun k hk => ⟨by simp, h.runs k hk⟩, fun k hk => ⟨by simp, h.steps k hk⟩,
        fun k hk => ⟨hattempts k hk, h.attempts k hk⟩, fun k hk => ⟨by simp, h.approvals k hk⟩⟩

/-- A key that is not new stops the commit. -/
theorem commitSqlite_of_not_newKeys (hfits : snapshot.NumbersFit db.load)
    (h : ¬ NewKeys db.load snapshot) : ∃ kind id,
      commitSqlite snapshot db = (.error (.persistence (.uniquenessError kind id)), db) := by
  rcases validateKeys_cases hfits with ⟨hnew, _⟩ | ⟨_, failure, ⟨kind, id, rfl⟩, hfail⟩
  · exact absurd hnew h
  · refine ⟨kind, id, ?_⟩
    rw [commitSqlite, Snapshot.writeTo, Except.bind_of_eq_error hfail]
    rfl

/-- A run without staged events has none to publish. -/
theorem pendingOf_eq_nil {runId : String} (h : runId ∉ snapshot.pendingRunIds) :
    snapshot.pendingOf runId = [] := by
  unfold Snapshot.pendingOf
  rw [List.filter_eq_nil_iff]
  intro event hevent hrun
  have hsame : event.runId = runId := of_decide_eq_true hrun
  exact h (List.mem_dedup.mpr (hsame ▸ List.mem_map_of_mem hevent))

/-- Tables and logs together are what the snapshot publishes. -/
theorem load_of_written {written after : Database} (htables : TablesWritten db snapshot written)
    (hlogs : LogsWritten written snapshot snapshot.pendingRunIds after) :
    after.load = snapshot.publish db.load := by
  have hevents : ∀ runId, eventsOf after.auditEvents runId =
      eventsOf db.auditEvents runId ++ snapshot.allocatePublishedEvents db.load runId := by
    intro runId
    rw [hlogs.events, htables.auditEvents, htables.sequences]
    by_cases hrun : runId ∈ snapshot.pendingRunIds
    · rw [if_pos hrun]
      rfl
    · rw [if_neg hrun, Snapshot.allocatePublishedEvents, pendingOf_eq_nil hrun]
      rfl
  have hsequences : ∀ runId, lastSequence after.runs runId =
      lastSequence db.runs runId + (snapshot.pendingOf runId).length := by
    intro runId
    rw [hlogs.sequences, htables.sequences]
    by_cases hrun : runId ∈ snapshot.pendingRunIds
    · rw [if_pos hrun]
    · rw [if_neg hrun, pendingOf_eq_nil hrun]
      rfl
  refine RecordStore.mk.injEq .. |>.mpr ⟨?_, ?_, ?_, ?_, ?_, funext hevents, funext hsequences⟩
  · exact hlogs.definitions.trans htables.definitions
  · exact hlogs.runs.trans htables.runs
  · exact hlogs.steps.trans htables.steps
  · exact hlogs.attempts.trans htables.attempts
  · exact hlogs.approvals.trans htables.approvals

/-- The logs after the tables. -/
theorem publishLogs_spec {written : Database} (hcontract : Contracted db.load snapshot)
    (hfits : snapshot.NumbersFit db.load) (hnumbered : db.load.Numbered)
    (htables : TablesWritten db snapshot written) :
    ∃ after, (snapshot.pendingRunIds.map fun runId => (runId, lastSequence db.runs runId)).foldlM
        snapshot.publishRunEvents written = .ok after ∧
      LogsWritten written snapshot snapshot.pendingRunIds after := by
  have hruns : ∀ runId ∈ snapshot.pendingRunIds, ((runColumn written.runs).get runId).isSome := by
    intro runId hrun
    obtain ⟨event, hevent, rfl⟩ := List.mem_map.mp (List.mem_dedup.mp hrun)
    rw [htables.runs]
    exact StagedTable.isSome_get_publish (hcontract.eventRuns event hevent)
  have hsteps : ∀ event ∈ snapshot.pendingEvents, ∀ stepId, event.stepId = some stepId →
      (written.steps.get (stepKey event.runId stepId)).isSome := by
    intro event hevent stepId hstep
    rw [htables.steps]
    exact StagedTable.isSome_get_publish (hcontract.eventSteps event hevent stepId hstep)
  -- the log is numbered without a gap, so nothing lies above the counter
  have hbound : ∀ runId ∈ snapshot.pendingRunIds, ∀ entry ∈ eventsOf written.auditEvents runId,
      entry.sequence ≤ lastSequence written.runs runId := by
    intro runId _ entry hentry
    rw [htables.auditEvents] at hentry
    have hsequence := List.mem_map_of_mem (f := Sequenced.sequence) hentry
    rw [show (eventsOf db.auditEvents runId).map Sequenced.sequence = _ from hnumbered runId,
      List.mem_range'_1] at hsequence
    rw [htables.sequences]
    have hlast : db.load.eventSequences runId = lastSequence db.runs runId := rfl
    omega
  -- writing the tables did not move the counters
  have hallocated : (snapshot.pendingRunIds.map fun runId => (runId, lastSequence db.runs runId)) =
      snapshot.pendingRunIds.map fun runId => (runId, lastSequence written.runs runId) :=
    List.map_congr_left fun runId _ => by rw [htables.sequences]
  rw [hallocated]
  refine publishEvents_spec (List.nodup_dedup _) hruns hsteps hbound hfits.events fun runId hrun => ?_
  rw [htables.sequences]
  exact hfits.sequences runId hrun

/-- The outcome of a commit. -/
theorem commitSqlite_spec (hcontract : Contracted db.load snapshot)
    (hfits : snapshot.NumbersFit db.load) (hunique : UniquePending db.approvals)
    (hnumbered : db.load.Numbered) (hnew : NewKeys db.load snapshot) :
    (¬ AggregatesCurrent db.load snapshot ∧ ∃ kind id expected actual,
        commitSqlite snapshot db =
          (.error (.persistence (.optimisticLockError kind id expected actual)), db)) ∨
      (AggregatesCurrent db.load snapshot ∧ ¬ UniquePending (insertedApprovals db.load snapshot) ∧
        commitSqlite snapshot db =
          (.error (.persistence (.uniquenessError "pending_approval" "run_id")), db)) ∨
      (AggregatesCurrent db.load snapshot ∧ UniquePending (insertedApprovals db.load snapshot) ∧
        ¬ Current runtimeRecords.approvalVersion db.approvals snapshot.approvals ∧
        ∃ kind id expected actual,
          commitSqlite snapshot db =
            (.error (.persistence (.optimisticLockError kind id expected actual)), db)) ∨
      (AggregatesCurrent db.load snapshot ∧ UniquePending (insertedApprovals db.load snapshot) ∧
        Current runtimeRecords.approvalVersion db.approvals snapshot.approvals ∧
        ∃ after, commitSqlite snapshot db = (.ok (), after) ∧
          after.load = snapshot.publish db.load) := by
  have hkeys : snapshot.validateKeys db = .ok () :=
    ((validateKeys_cases hfits).resolve_right fun h => h.1 hnew).2
  have hallocated := allocate_eq hcontract
  -- a failure of the tables is the failure of the commit
  have hfailed : ∀ {failure : SqlFailure}, snapshot.publishTables db = .error failure →
      commitSqlite snapshot db = (.error failure.translate, db) := by
    intro failure hfailure
    have hwrite : snapshot.writeTo db = .error failure := by
      refine (Except.bind_of_eq_ok hkeys _).trans ?_
      refine (Except.bind_of_eq_ok hallocated _).trans ?_
      exact Except.bind_of_eq_error hfailure _
    rw [commitSqlite, hwrite]
  rcases publishTables_spec hcontract hnew hfits hunique with
    ⟨haggregates, kind, id, expected, actual, hfail⟩ | ⟨haggregates, hinserted, hfail⟩ |
    ⟨haggregates, hinserted, hversions, kind, id, expected, actual, hfail⟩ |
    ⟨haggregates, hinserted, hversions, written, hwritten, htables⟩
  · exact Or.inl ⟨haggregates, kind, id, expected, actual, hfailed hfail⟩
  · refine Or.inr (Or.inl ⟨haggregates, hinserted, ?_⟩)
    rw [hfailed hfail]
    rfl
  · exact Or.inr (Or.inr (Or.inl ⟨haggregates, hinserted, hversions, kind, id, expected, actual,
      hfailed hfail⟩))
  · obtain ⟨after, hafter, hlogs⟩ := publishLogs_spec hcontract hfits hnumbered htables
    refine Or.inr (Or.inr (Or.inr ⟨haggregates, hinserted, hversions, after, ?_,
      load_of_written htables hlogs⟩))
    have hwrite : snapshot.writeTo db = .ok after := by
      refine (Except.bind_of_eq_ok hkeys _).trans ?_
      refine (Except.bind_of_eq_ok hallocated _).trans ?_
      exact (Except.bind_of_eq_ok hwritten _).trans hafter
    rw [commitSqlite, hwrite]

end

/-! ## What has been committed fits -/

theorem exists_mem_numberEvents {event : AuditEvent} {events : List AuditEvent} :
    ∀ {last : ℕ}, event ∈ events → ∃ entry ∈ numberEvents last events, entry.event = event := by
  induction events with
  | nil => exact fun h => absurd h List.not_mem_nil
  | cons first rest ih =>
      intro last h
      rcases List.mem_cons.mp h with rfl | h
      · exact ⟨_, List.mem_cons_self .., rfl⟩
      · obtain ⟨entry, hentry, hevent⟩ := @ih (last + 1) h
        exact ⟨entry, List.mem_cons_of_mem _ hentry, hevent⟩

/-- The numbers of rows that have been inserted have been bound. -/
theorem fits_of_insertAll {V K : Type} [LinearOrder K] {key : V → K} {numbers : V → List ℤ}
    {allow : KeyedTable key → V → Except SqlFailure Unit} {t u : KeyedTable key} {rows : List V}
    (h : insertAll (fun t v => do bindNumbers (numbers v); allow t v) t rows = .ok u) :
    ∀ v ∈ rows, ∀ n ∈ numbers v, FitsColumn n := by
  intro v hv
  obtain ⟨table, hallow⟩ := KeyedTable.exists_allow_of_insertAll h v hv
  exact bindNumbers_eq_ok_iff.mp (Except.bind_unit_eq_ok_iff.mp hallow).1

theorem fits_of_updateRevised {V K : Type} [LinearOrder K] {key : V → K} {numbers : V → List ℤ}
    {revision : V → ℤ} {allow : KeyedTable key → V → Except SqlFailure Unit}
    {aggregateType : String} {identifier : K → String} {t u : KeyedTable key}
    {changes : List (V × ℤ)}
    (h : updateRevised numbers revision allow aggregateType identifier t changes = .ok u) :
    ∀ change ∈ changes, ∀ n ∈ change.2 :: numbers change.1, FitsColumn n :=
  fun change hchange => bindNumbers_eq_ok_iff.mp (KeyedTable.bound_of_updateAll h change hchange)

section

variable {db after : Database} {snapshot : Snapshot runtimeRecords}

/-- The number that a run's events are allocated after. -/
theorem mem_allocate {allocated : List (String × ℕ)} (h : snapshot.allocate db = .ok allocated)
    {runId : String} (hrun : runId ∈ snapshot.pendingRunIds) :
    (runId, lastSequence db.runs runId) ∈ allocated := by
  obtain ⟨pair, hpair, hstep⟩ := Except.exists_mem_of_mapM h runId hrun
  have hsame : pair = (runId, lastSequence db.runs runId) := by
    unfold lastSequence
    cases hrow : db.runs.get runId with
    | some row =>
        simp only [hrow] at hstep
        exact (Except.ok.inj hstep).symm
    | none =>
        simp only [hrow] at hstep
        split at hstep
        · exact (Except.ok.inj hstep).symm
        · cases hstep
  exact hsame ▸ hpair

/-- The events of a run, and the number of the last of them. -/
theorem fits_of_publishRunEvents {allocated : String × ℕ}
    (h : snapshot.publishRunEvents db allocated = .ok after) :
    (∀ event ∈ snapshot.pendingOf allocated.1, ∀ n ∈ event.numbers, FitsColumn n) ∧
      FitsColumn ↑(allocated.2 + (snapshot.pendingOf allocated.1).length) := by
  obtain ⟨_, hinserted, h⟩ := Except.bind_eq_ok_iff.mp h
  obtain ⟨hcounted, -⟩ := Except.bind_unit_eq_ok_iff.mp h
  refine ⟨fun event hevent n hn => ?_, by simpa using bindNumbers_eq_ok_iff.mp hcounted⟩
  obtain ⟨entry, hentry, rfl⟩ := @exists_mem_numberEvents _ _ allocated.2 hevent
  have hbound : ∀ n ∈ ↑entry.sequence :: entry.event.numbers, FitsColumn n :=
    fits_of_insertAll hinserted entry hentry
  exact hbound n (List.mem_cons_of_mem _ hn)

/-- Every number of a commit that succeeds has been bound. -/
theorem fits_of_commitSqlite (h : commitSqlite snapshot db = (.ok (), after)) :
    snapshot.NumbersFit db.load := by
  obtain ⟨after, hwritten⟩ : ∃ after, snapshot.writeTo db = .ok after := by
    rw [commitSqlite] at h
    split at h
    case h_1 written hwritten => exact ⟨written, hwritten⟩
    case h_2 => cases (Prod.mk.inj h).1
  -- an accepted commit ran every block of statements to its end
  obtain ⟨-, h⟩ := Except.bind_unit_eq_ok_iff.mp hwritten
  obtain ⟨allocated, hallocated, h⟩ := Except.bind_eq_ok_iff.mp h
  obtain ⟨written, htables, hlogs⟩ := Except.bind_eq_ok_iff.mp h
  obtain ⟨definitions, hdefinitions, h⟩ := Except.bind_eq_ok_iff.mp htables
  obtain ⟨runs, hruns, h⟩ := Except.bind_eq_ok_iff.mp h
  obtain ⟨steps, hsteps, h⟩ := Except.bind_eq_ok_iff.mp h
  obtain ⟨attempts, hattempts, h⟩ := Except.bind_eq_ok_iff.mp h
  obtain ⟨approvals, happrovals, -⟩ := Except.bind_eq_ok_iff.mp h
  obtain ⟨_, hrunsAdded, hrunsSaved⟩ := Except.bind_eq_ok_iff.mp hruns
  obtain ⟨_, hstepsAdded, hstepsSaved⟩ := Except.bind_eq_ok_iff.mp hsteps
  obtain ⟨_, hattemptsAdded, hattemptsSaved⟩ := Except.bind_eq_ok_iff.mp hattempts
  obtain ⟨_, happrovalsAdded, happrovalsSaved⟩ := Except.bind_eq_ok_iff.mp happrovals
  -- the numbers of a run's events were bound by the statements for that run
  have hlog : ∀ runId ∈ snapshot.pendingRunIds, _ := fun runId hrun =>
    have ⟨_, _, hstep⟩ := Except.exists_of_foldlM hlogs _ (mem_allocate hallocated hrun)
    fits_of_publishRunEvents hstep
  exact {
    definitions := fun definition hdefinition =>
      fits_of_insertAll hdefinitions definition hdefinition _ (List.mem_singleton_self _)
    addedRuns := fun run hrun => fits_of_insertAll hrunsAdded _ (List.mem_map_of_mem hrun)
    savedRuns := fun change hchange =>
      bindNumbers_eq_ok_iff.mp (KeyedTable.bound_of_updateAll hrunsSaved change hchange)
    addedSteps := fits_of_insertAll hstepsAdded
    savedSteps := fits_of_updateRevised hstepsSaved
    addedAttempts := fun attempt hattempt =>
      fits_of_insertAll hattemptsAdded attempt hattempt _ (List.mem_singleton_self _)
    savedAttempts := fun attempt hattempt => bindNumbers_eq_ok_iff.mp
      (KeyedTable.bound_of_updateAll hattemptsSaved attempt hattempt) _ (List.mem_singleton_self _)
    addedApprovals := fun request hrequest =>
      fits_of_insertAll happrovalsAdded request hrequest _ (List.mem_singleton_self _)
    savedApprovals := fits_of_updateRevised happrovalsSaved
    events := fun event hevent => (hlog event.runId (List.mem_dedup.mpr
      (List.mem_map_of_mem hevent))).1 event (List.mem_filter.mpr ⟨hevent, by simp⟩)
    sequences := fun runId hrun => (hlog runId hrun).2 }

end

end ChangePilot
