import ChangePilot.Persistence.Contract
import ChangePilot.System.Sample

/-!
# The two stores

A unit of work whose changes keep to the contract of the ports is committed to the
memory store and to a SQLite database with the same content.  Memory looks at the
requests as they will be; SQLite inserts the new requests while the replaced ones are
still as they were, and only after the runs and the steps are updated.  The two
commits end alike exactly when that makes no difference to the constraint that a run
has one pending request.  That is so as long as every number fits into the column it is
written to; with one that does not, SQLite commits nothing, and memory may.

Each adapter's commit has one lemma that says how it ends, by conditions on the store and
the snapshot (`commitMemory_spec`, `commitSqlite_spec`); `commitsAgree_iff` goes through the
pairs of their cases.
-/

namespace ChangePilot

/-! ## Agreement -/

/-- The class of an exception. -/
def PersistenceError.className : PersistenceError → String
  | persistenceError .. => "PersistenceError"
  | optimisticLockError .. => "OptimisticLockError"
  | uniquenessError .. => "UniquenessError"
  | invalidRevisionError .. => "InvalidRevisionError"
  | unitOfWorkStateError .. => "UnitOfWorkStateError"

def CommitError.className : CommitError → String
  | persistence error => error.className
  | overflowError .. => "OverflowError"

/-- Both commits succeed and leave equal stores, or both fail with exceptions of one
class and change nothing. -/
inductive CommitsAgree (store : RecordStore runtimeRecords) (db : Database) :
    Except PersistenceError Unit × RecordStore runtimeRecords →
      Except CommitError Unit × Database → Prop where
  | committed {after : RecordStore runtimeRecords} {db' : Database} (h : db'.load = after) :
      CommitsAgree store db (.ok (), after) (.ok (), db')
  | failed {error : PersistenceError} {error' : CommitError}
      (h : error.className = error'.className) :
      CommitsAgree store db (.error error, store) (.error error', db)

section

variable {store after : RecordStore runtimeRecords} {db db' : Database}
  {kind id kind' id' : String} {expected actual : ℤ}

theorem not_agree_uniqueness : ¬ CommitsAgree store db (.error (.uniquenessError kind id), after)
    (.error (.persistence (.optimisticLockError kind' id' expected actual)), db') := by
  intro h
  cases h with
  | failed hclass => exact absurd hclass (by decide : "UniquenessError" ≠ "OptimisticLockError")

theorem not_agree_optimisticLock : ¬ CommitsAgree store db
    (.error (.optimisticLockError kind id expected actual), after)
    (.error (.persistence (.uniquenessError kind' id')), db') := by
  intro h
  cases h with
  | failed hclass => exact absurd hclass (by decide : "OptimisticLockError" ≠ "UniquenessError")

end

/-- The requests with those of the snapshot in place. -/
def publishedApprovals (store : RecordStore runtimeRecords) (snapshot : Snapshot runtimeRecords) :
    KeyedTable runtimeRecords.approvalIdentity :=
  snapshot.approvals.publish store.approvals

/-- Where all new keys are new, the constraint on pending requests is the same for the
inserted requests as for all of them, and does not stop a commit that expects other
runs or steps. -/
def Snapshot.PendingAlike (snapshot : Snapshot runtimeRecords)
    (store : RecordStore runtimeRecords) : Prop :=
  NewKeys store snapshot →
    (AggregatesCurrent store snapshot →
      (UniquePending (insertedApprovals store snapshot) ↔
        UniquePending (publishedApprovals store snapshot))) ∧
    (¬ AggregatesCurrent store snapshot → UniquePending (publishedApprovals store snapshot))

/-! ## The outcome in memory -/

section

variable {snapshot : Snapshot runtimeRecords} {store : RecordStore runtimeRecords}

theorem duplicateRun_eq_none_iff_uniquePending :
    snapshot.duplicateRun store = none ↔ UniquePending (publishedApprovals store snapshot) := by
  unfold Snapshot.duplicateRun
  rw [List.find?_eq_none]
  have hcount : ∀ runId, ¬ 1 < snapshot.pendingCount store runId ↔
      ∀ a ∈ (publishedApprovals store snapshot).rows,
        ∀ b ∈ (publishedApprovals store snapshot).rows,
          (a.status = .pending ∧ a.runId = runId) → (b.status = .pending ∧ b.runId = runId) →
            a = b := by
    intro runId
    rw [not_lt]
    refine Iff.trans (KeyedTable.length_filter_le_one_iff _) ?_
    refine forall₂_congr fun a _ => forall₂_congr fun b _ => ?_
    rw [decide_eq_true_eq, decide_eq_true_eq]
    exact imp_congr (and_congr_left' a.status.value_eq_pending_iff)
      (imp_congr (and_congr_left' b.status.value_eq_pending_iff) Iff.rfl)
  constructor
  · intro hnone a ha b hb hpending hpending' hrun
    have hcounted := hnone a.runId (List.mem_map_of_mem ha)
    rw [decide_eq_true_eq] at hcounted
    exact (hcount a.runId).mp hcounted a ha b hb ⟨hpending, rfl⟩ ⟨hpending', hrun.symm⟩
  · intro hunique runId _
    rw [decide_eq_true_eq]
    exact (hcount runId).mpr fun a ha b hb ⟨hpending, hrun⟩ ⟨hpending', hrun'⟩ =>
      hunique a ha b hb hpending hpending' (hrun.trans hrun'.symm)

theorem validateUniqueness_cases :
    ((NewKeys store snapshot ∧ UniquePending (publishedApprovals store snapshot)) ∧
        snapshot.validateUniqueness store = .ok ()) ∨
      (¬ (NewKeys store snapshot ∧ UniquePending (publishedApprovals store snapshot)) ∧
        ∃ error, (∃ kind id, error = .uniquenessError kind id) ∧
          snapshot.validateUniqueness store = .error error) := by
  refine Except.Fails.cases ?_ ?_
  · refine (StagedTable.checkAdded_fails fun _ => ⟨_, _, rfl⟩).bind fun _ => ?_
    refine (StagedTable.checkAdded_fails fun _ => ⟨_, _, rfl⟩).bind fun _ => ?_
    refine (StagedTable.checkAdded_fails fun _ => ⟨_, _, rfl⟩).bind fun _ => ?_
    refine (StagedTable.checkAdded_fails fun _ => ⟨_, _, rfl⟩).bind fun _ => ?_
    refine (StagedTable.checkAdded_fails fun _ => ⟨_, _, rfl⟩).bind fun _ => ?_
    cases snapshot.duplicateRun store with
    | some runId => exact Except.fails_error ⟨_, _, rfl⟩
    | none => exact Except.fails_ok
  · rw [Snapshot.validateUniqueness_eq_ok_iff, duplicateRun_eq_none_iff_uniquePending]
    constructor
    · exact fun ⟨hdefinitions, hruns, hsteps, hattempts, happrovals, hpending⟩ =>
        ⟨⟨hdefinitions, hruns, hsteps, hattempts, happrovals⟩, hpending⟩
    · exact fun ⟨hnew, hpending⟩ => ⟨hnew.definitions, hnew.runs, hnew.steps, hnew.attempts,
        hnew.approvals, hpending⟩

theorem validateRevisions_cases :
    ((AggregatesCurrent store snapshot ∧
        Current runtimeRecords.approvalVersion store.approvals snapshot.approvals) ∧
        snapshot.validateRevisions store = .ok ()) ∨
      (¬ (AggregatesCurrent store snapshot ∧
          Current runtimeRecords.approvalVersion store.approvals snapshot.approvals) ∧
        ∃ error, (∃ kind id expected actual,
            error = .optimisticLockError kind id expected actual) ∧
          snapshot.validateRevisions store = .error error) := by
  refine Except.Fails.cases ?_ ?_
  · refine (StagedTable.checkExpected_fails fun _ _ _ => ⟨_, _, _, _, rfl⟩).bind fun _ => ?_
    refine (StagedTable.checkExpected_fails fun _ _ _ => ⟨_, _, _, _, rfl⟩).bind fun _ => ?_
    exact StagedTable.checkExpected_fails fun _ _ _ => ⟨_, _, _, _, rfl⟩
  · rw [Snapshot.validateRevisions_eq_ok_iff, AggregatesCurrent, and_assoc]
    rfl

/-- The commit of a memory unit of work. -/
def commitMemory (snapshot : Snapshot runtimeRecords) (store : RecordStore runtimeRecords) :
    Except PersistenceError Unit × RecordStore runtimeRecords :=
  match (do snapshot.validateUniqueness store; snapshot.validateRevisions store :
    Except PersistenceError Unit) with
  | .error error => (.error error, store)
  | .ok _ => (.ok (), snapshot.publish store)

theorem runMemory_eq (base store : RecordStore runtimeRecords)
    (ops : List (RecordOp runtimeRecords)) :
    runMemory base store ops =
      commitMemory (stageEach Snapshot.stage (.fromStore base) ops) store := by
  have hcommit := @UnitOfWork.commit_open runtimeRecords
    ⟨stageEach Snapshot.stage (.fromStore base) ops, false, false⟩ rfl rfl store
  unfold runMemory commitMemory
  rw [hcommit]
  cases (do (stageEach Snapshot.stage (.fromStore base) ops).validateUniqueness store
            (stageEach Snapshot.stage (.fromStore base) ops).validateRevisions store :
    Except PersistenceError Unit) <;> rfl

/-- Memory looks at the new keys and at the pending requests first, then at the revisions. -/
theorem commitMemory_spec :
    (¬ (NewKeys store snapshot ∧ UniquePending (publishedApprovals store snapshot)) ∧
        ∃ kind id, commitMemory snapshot store = (.error (.uniquenessError kind id), store)) ∨
      ((NewKeys store snapshot ∧ UniquePending (publishedApprovals store snapshot)) ∧
        ¬ (AggregatesCurrent store snapshot ∧
          Current runtimeRecords.approvalVersion store.approvals snapshot.approvals) ∧
        ∃ kind id expected actual, commitMemory snapshot store =
          (.error (.optimisticLockError kind id expected actual), store)) ∨
      ((NewKeys store snapshot ∧ UniquePending (publishedApprovals store snapshot)) ∧
        (AggregatesCurrent store snapshot ∧
          Current runtimeRecords.approvalVersion store.approvals snapshot.approvals) ∧
        commitMemory snapshot store = (.ok (), snapshot.publish store)) := by
  rcases @validateUniqueness_cases snapshot store with
    ⟨hunique, hok⟩ | ⟨hunique, error, ⟨kind, id, rfl⟩, hfail⟩
  case inr =>
    refine Or.inl ⟨hunique, kind, id, ?_⟩
    rw [commitMemory, Except.bind_of_eq_error hfail]
  case inl =>
  rcases @validateRevisions_cases snapshot store with
    ⟨hcurrent, hok'⟩ | ⟨hcurrent, error, ⟨kind, id, expected, actual, rfl⟩, hfail⟩
  · refine Or.inr (Or.inr ⟨hunique, hcurrent, ?_⟩)
    rw [commitMemory, Except.bind_of_eq_ok hok, hok']
  · refine Or.inr (Or.inl ⟨hunique, hcurrent, kind, id, expected, actual, ?_⟩)
    rw [commitMemory, Except.bind_of_eq_ok hok, hfail]

/-- The two commits of a snapshot that keeps to the contract. -/
theorem commitsAgree_iff {db : Database} (hcontracted : Contracted db.load snapshot)
    (hfits : snapshot.NumbersFit db.load) (hunique : UniquePending db.approvals)
    (hnumbered : db.load.Numbered) :
    CommitsAgree db.load db (commitMemory snapshot db.load) (commitSqlite snapshot db) ↔
      snapshot.PendingAlike db.load := by
  by_cases hnew : NewKeys db.load snapshot
  case neg =>
    obtain ⟨kind, id, hsqlite⟩ := commitSqlite_of_not_newKeys hfits hnew
    rcases @commitMemory_spec snapshot db.load with
      ⟨_, kind', id', hmemory⟩ | ⟨hboth, _⟩ | ⟨hboth, _⟩
    · rw [hsqlite, hmemory]
      exact iff_of_true (.failed rfl) fun h => absurd h hnew
    · exact absurd hboth.1 hnew
    · exact absurd hboth.1 hnew
  case pos =>
  -- memory refuses as a whole what two pending requests of a run remain in
  rcases @commitMemory_spec snapshot db.load with
    ⟨hpending, kind, id, hmemory⟩ | ⟨hpending, hcurrent, kind, id, expected, actual, hmemory⟩ |
    ⟨hpending, hcurrent, hmemory⟩
  case inl =>
    have hfinal : ¬ UniquePending (publishedApprovals db.load snapshot) :=
      fun h => hpending ⟨hnew, h⟩
    rw [hmemory]
    rcases commitSqlite_spec hcontracted hfits hunique hnumbered hnew with
      ⟨haggregates, kind', id', expected, actual, hsqlite⟩ | ⟨haggregates, hinserted, hsqlite⟩ |
      ⟨haggregates, hinserted, _, kind', id', expected, actual, hsqlite⟩ |
      ⟨haggregates, hinserted, _, after, hsqlite, _⟩ <;> rw [hsqlite]
    · exact iff_of_false not_agree_uniqueness
        fun h => hfinal ((h hnew).2 haggregates)
    · refine iff_of_true (.failed rfl) fun _ => ⟨fun _ => ?_, fun h => absurd haggregates h⟩
      exact iff_of_false hinserted hfinal
    · exact iff_of_false not_agree_uniqueness
        fun h => hfinal (((h hnew).1 haggregates).mp hinserted)
    · exact iff_of_false nofun fun h => hfinal (((h hnew).1 haggregates).mp hinserted)
  case inr.inl =>
    rw [hmemory]
    rcases commitSqlite_spec hcontracted hfits hunique hnumbered hnew with
      ⟨haggregates, kind', id', expected', actual', hsqlite⟩ | ⟨haggregates, hinserted, hsqlite⟩ |
      ⟨haggregates, hinserted, _, kind', id', expected', actual', hsqlite⟩ |
      ⟨haggregates, hinserted, hversions, after, hsqlite, _⟩
    · rw [hsqlite]
      exact iff_of_true (.failed rfl) fun _ => ⟨fun h => absurd h haggregates, fun _ => hpending.2⟩
    · rw [hsqlite]
      exact iff_of_false not_agree_optimisticLock
        fun h => hinserted (((h hnew).1 haggregates).mpr hpending.2)
    · rw [hsqlite]
      exact iff_of_true (.failed rfl) fun _ =>
        ⟨fun _ => iff_of_true hinserted hpending.2, fun h => absurd haggregates h⟩
    · exact absurd ⟨haggregates, hversions⟩ hcurrent
  case inr.inr =>
    rw [hmemory]
    rcases commitSqlite_spec hcontracted hfits hunique hnumbered hnew with
      ⟨haggregates, _⟩ | ⟨haggregates, hinserted, hsqlite⟩ | ⟨_, _, hversions, _⟩ |
      ⟨haggregates, hinserted, _, after, hsqlite, hload⟩
    · exact absurd hcurrent.1 haggregates
    · rw [hsqlite]
      exact iff_of_false nofun
        fun h => hinserted (((h hnew).1 haggregates).mpr hpending.2)
    · exact absurd hcurrent.2 hversions
    · rw [hsqlite]
      exact iff_of_true (.committed hload) fun _ =>
        ⟨fun _ => iff_of_true hinserted hpending.2, fun h => absurd haggregates h⟩

end

/-! ## The guarantee -/

section

variable {opened db : Database} {base store : RecordStore runtimeRecords}
  {ops : List (RecordOp runtimeRecords)}

/-- A run without a row has no events. -/
theorem eventSequences_load {runId : String} (h : opened.load.runs.get runId = none) :
    opened.load.eventSequences runId = 0 := by
  have hcolumn : (runColumn opened.runs).get runId = none := h
  rw [get_runColumn, Option.map_eq_none_iff] at hcolumn
  show lastSequence opened.runs runId = 0
  rw [lastSequence, hcolumn]
  rfl

/-- The two commits of the same changes. -/
theorem runs_agree_iff (hunique : UniquePending db.approvals) (hnumbered : db.load.Numbered)
    (hgrown : Grown opened.load db.load) (hcontract : Contract (.fromStore opened.load) ops)
    (hreferences : References db.load
      (stageEach Snapshot.stage (.fromStore opened.load) ops))
    (hfits : (stageEach Snapshot.stage (.fromStore opened.load) ops).NumbersFit db.load) :
    CommitsAgree db.load db (runMemory opened.load db.load ops) (runSqlite opened db ops) ↔
      (stageEach Snapshot.stage (.fromStore opened.load) ops).PendingAlike db.load := by
  have hkept := (kept_fromStore opened.load).stageEach hcontract
  rw [runMemory_eq, runSqlite, stageEach_stageSqlite hcontract]
  exact commitsAgree_iff (hkept.contracted hgrown hreferences fun _ => eventSequences_load) hfits
    hunique hnumbered

/-- What memory commits, SQLite does not where a number does not fit. -/
theorem not_agree_of_not_fits (hcontract : Contract (.fromStore opened.load) ops)
    (hmemory : (runMemory opened.load db.load ops).1 = .ok ())
    (hfits : ¬ (stageEach Snapshot.stage (.fromStore opened.load) ops).NumbersFit db.load) :
    ¬ CommitsAgree db.load db (runMemory opened.load db.load ops) (runSqlite opened db ops) := by
  rw [runSqlite, stageEach_stageSqlite hcontract]
  generalize hsqlite : commitSqlite (stageEach Snapshot.stage (.fromStore opened.load) ops) db =
    outcome
  generalize runMemory opened.load db.load ops = other at hmemory
  intro h
  cases h with
  | committed => exact hfits (fits_of_commitSqlite hsqlite)
  | failed => cases hmemory

end

/-- A request for the only run. -/
def request (id : String) : ApprovalRequest where
  id
  runId := "run-1"
  definitionDigest := "digest"
  stepId := "step-1"
  toolName := "deploy"
  toolVersion := "1"
  redactedArguments := .dict []
  bindingDigest := Sample.sha256 id
  riskReasons := ["high"]
  createdAt := 0
  consistent := approvalFieldsConsistent_pending

/-- A run that waits for the decision on a request. -/
def waiting : Database where
  definitions := .empty
  runs := KeyedTable.empty.put
    ⟨⟨"run-1", "release", 1, "digest", .waitingApproval, 1, none, none⟩, 0⟩
  steps := .empty
  attempts := .empty
  approvals := KeyedTable.empty.put (request "request-1")
  auditEvents := .empty

/-- Invalidate the request. -/
def invalidateFirst : RecordOp runtimeRecords :=
  .saveApproval ((request "request-1").invalidated 0) 0

/-- Put another request in its place. -/
def replaceFirst : List (RecordOp runtimeRecords) :=
  [invalidateFirst, .addApproval (request "request-2")]

theorem uniquePending_of_rows {t : KeyedTable runtimeRecords.approvalIdentity}
    {row : ApprovalRequest} (h : t.rows = [row]) : UniquePending t := by
  intro a ha b hb _ _ _
  rw [h, List.mem_singleton] at ha hb
  rw [ha, hb]

theorem uniquePending_waiting : UniquePending waiting.approvals :=
  uniquePending_of_rows (show waiting.approvals.rows = [request "request-1"] from rfl)

theorem numbered_waiting : waiting.load.Numbered := by
  intro runId
  show [] = List.range' 1 (lastSequence waiting.runs runId)
  unfold lastSequence waiting
  rw [KeyedTable.get_put]
  split <;> rfl

theorem aggregatesCurrent_waiting {snapshot : Snapshot runtimeRecords}
    (hruns : snapshot.runs.expected = []) (hsteps : snapshot.steps.expected = []) :
    AggregatesCurrent waiting.load snapshot := by
  unfold AggregatesCurrent Current
  rw [hruns, hsteps]
  exact ⟨fun _ h => absurd h List.not_mem_nil, fun _ h => absurd h List.not_mem_nil⟩

/-- Requests are all that is added and saved. -/
structure OnlyRequests (snapshot : Snapshot runtimeRecords) : Prop where
  definitions : snapshot.definitions.addedRows = []
  runs : snapshot.runs.addedRows = [] ∧ snapshot.runs.replacements = []
  steps : snapshot.steps.addedRows = [] ∧ snapshot.steps.replacements = []
  attempts : snapshot.attempts.addedRows = [] ∧ snapshot.attempts.savedRows = []
  events : snapshot.pendingEvents = []

theorem OnlyRequests.numbersFit {snapshot : Snapshot runtimeRecords}
    {store : RecordStore runtimeRecords} (h : OnlyRequests snapshot)
    (hadded : ∀ request ∈ snapshot.approvals.addedRows, FitsColumn request.version)
    (hsaved : ∀ change ∈ snapshot.approvals.replacements,
      ∀ n ∈ [change.2, change.1.version], FitsColumn n) : snapshot.NumbersFit store := by
  obtain ⟨hdefinitions, ⟨hruns, hruns'⟩, ⟨hsteps, hsteps'⟩, ⟨hattempts, hattempts'⟩, hevents⟩ := h
  have hnone : snapshot.pendingRunIds = [] := by
    rw [Snapshot.pendingRunIds, hevents]
    rfl
  refine ⟨?_, ?_, ?_, ?_, ?_, ?_, ?_, hadded, hsaved, ?_, ?_⟩ <;>
    simp only [hdefinitions, hruns, hruns', hsteps, hsteps', hattempts, hattempts', hevents, hnone,
      List.not_mem_nil, false_imp_iff, implies_true]

theorem numbersFit_invalidateFirst : (stageEach Snapshot.stage (.fromStore waiting.load)
    [invalidateFirst]).NumbersFit waiting.load := by
  have hsaved : (stageEach Snapshot.stage (.fromStore waiting.load)
      [invalidateFirst]).approvals.replacements = [((request "request-1").invalidated 0, 0)] := rfl
  refine OnlyRequests.numbersFit ⟨rfl, ⟨rfl, rfl⟩, ⟨rfl, rfl⟩, ⟨rfl, rfl⟩, rfl⟩
    (fun _ h => absurd h List.not_mem_nil) ?_
  rw [hsaved, List.forall_mem_singleton]
  decide

theorem numbersFit_replaceFirst : (stageEach Snapshot.stage (.fromStore waiting.load)
    replaceFirst).NumbersFit waiting.load := by
  have hsaved : (stageEach Snapshot.stage (.fromStore waiting.load)
      replaceFirst).approvals.replacements = [((request "request-1").invalidated 0, 0)] := rfl
  have hadded : (stageEach Snapshot.stage (.fromStore waiting.load)
      replaceFirst).approvals.addedRows = [request "request-2"] := rfl
  refine OnlyRequests.numbersFit ⟨rfl, ⟨rfl, rfl⟩, ⟨rfl, rfl⟩, ⟨rfl, rfl⟩, rfl⟩ ?_ ?_
  · rw [hadded, List.forall_mem_singleton]
    decide
  · rw [hsaved, List.forall_mem_singleton]
    decide

section

variable {opened db : Database} {base store : RecordStore runtimeRecords}
  {ops : List (RecordOp runtimeRecords)}

/-- Where all numbers fit into their columns, the two commits end alike exactly when the
pending requests are looked at alike.  Where one does not, they do not end alike if memory
commits. -/
theorem stores_agree (hbase : opened.load = base) (hstore : db.load = store)
    (hunique : UniquePending db.approvals) (hnumbered : db.load.Numbered)
    (hgrown : Grown base store) (hcontract : Contract (.fromStore base) ops)
    (hreferences : References store (stageEach Snapshot.stage (.fromStore base) ops)) :
    ((stageEach Snapshot.stage (.fromStore base) ops).NumbersFit store →
        (CommitsAgree store db (runMemory base store ops) (runSqlite opened db ops) ↔
          (stageEach Snapshot.stage (.fromStore base) ops).PendingAlike store)) ∧
      ((runMemory base store ops).1 = .ok () →
        CommitsAgree store db (runMemory base store ops) (runSqlite opened db ops) →
          (stageEach Snapshot.stage (.fromStore base) ops).NumbersFit store) := by
  subst hbase hstore
  exact ⟨runs_agree_iff hunique hnumbered hgrown hcontract hreferences, fun hmemory hagree =>
    by_contra fun hfits => not_agree_of_not_fits hcontract hmemory hfits hagree⟩

theorem stores_agree_invalidated :
    CommitsAgree waiting.load waiting (runMemory waiting.load waiting.load [invalidateFirst])
      (runSqlite waiting waiting [invalidateFirst]) := by
  refine ((@stores_agree waiting waiting _ _ [invalidateFirst] rfl rfl uniquePending_waiting
    numbered_waiting (Grown.refl waiting.load) ?_ ?_).1 ?_).mpr ?_
  · exact ⟨fun _ => List.not_mem_nil, trivial⟩
  · exact ⟨fun _ h => absurd h List.not_mem_nil, fun _ h => absurd h List.not_mem_nil,
      fun _ h => absurd h List.not_mem_nil, fun _ h => absurd h List.not_mem_nil,
      fun _ h => absurd h List.not_mem_nil⟩
  · exact numbersFit_invalidateFirst
  · refine fun _ => ⟨fun _ => ?_, fun h => absurd (aggregatesCurrent_waiting rfl rfl) h⟩
    have hrows : (publishedApprovals waiting.load (stageEach Snapshot.stage
        (.fromStore waiting.load) [invalidateFirst])).rows =
          [(request "request-1").invalidated 0] := rfl
    exact iff_of_true uniquePending_waiting (uniquePending_of_rows hrows)

theorem replaced_request_divides :
    ¬ ∀ (opened db : Database) (ops : List (RecordOp runtimeRecords)),
      UniquePending db.approvals → db.load.Numbered → Grown opened.load db.load →
      Contract (.fromStore opened.load) ops →
      References db.load (stageEach Snapshot.stage (.fromStore opened.load) ops) →
      CommitsAgree db.load db (runMemory opened.load db.load ops) (runSqlite opened db ops) := by
  intro h
  have hcontract : Contract (.fromStore waiting.load) replaceFirst :=
    ⟨fun _ => List.not_mem_nil, fun _ => trivial, trivial⟩
  have hreferences : References waiting.load
      (stageEach Snapshot.stage (.fromStore waiting.load) replaceFirst) := by
    refine ⟨fun _ h => absurd h List.not_mem_nil, fun _ h => absurd h List.not_mem_nil,
      fun added hadded => ?_, fun _ h => absurd h List.not_mem_nil,
      fun _ h => absurd h List.not_mem_nil⟩
    obtain rfl : added = request "request-2" := List.mem_singleton.mp hadded
    exact Or.inl rfl
  have hgrown : Grown waiting.load waiting.load := .refl _
  have hagree := (runs_agree_iff uniquePending_waiting numbered_waiting hgrown hcontract
    hreferences numbersFit_replaceFirst).mp (h waiting waiting replaceFirst uniquePending_waiting
      numbered_waiting hgrown hcontract hreferences)
  have hnew : NewKeys waiting.load
      (stageEach Snapshot.stage (.fromStore waiting.load) replaceFirst) := by
    refine ⟨fun _ h => absurd h List.not_mem_nil, fun _ h => absurd h List.not_mem_nil,
      fun _ h => absurd h List.not_mem_nil, fun _ h => absurd h List.not_mem_nil,
      fun key hkey => ?_⟩
    obtain rfl : key = (request "request-2").key := List.mem_singleton.mp hkey
    rfl
  have hpublished : UniquePending (publishedApprovals waiting.load
      (stageEach Snapshot.stage (.fromStore waiting.load) replaceFirst)) := by
    have hrows : (publishedApprovals waiting.load
        (stageEach Snapshot.stage (.fromStore waiting.load) replaceFirst)).rows =
          [(request "request-1").invalidated 0, request "request-2"] := rfl
    intro a ha b hb hpending hpending' _
    rw [hrows, List.mem_cons, List.mem_singleton] at ha hb
    rcases ha with rfl | rfl
    · cases hpending
    · rcases hb with rfl | rfl
      · cases hpending'
      · rfl
  have hinserted := ((hagree hnew).1 (aggregatesCurrent_waiting rfl rfl)).mpr hpublished
  -- while the new request is inserted, the old one is still pending
  have hsame : request "request-1" = request "request-2" :=
    hinserted _ (List.mem_cons_self ..) _ (List.mem_cons_of_mem _ (List.mem_cons_self ..)) rfl rfl
      rfl
  exact absurd (congrArg ApprovalRequest.id hsame) (by decide)

end

end ChangePilot
