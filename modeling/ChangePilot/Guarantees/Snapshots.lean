import ChangePilot.Guarantees.Stores
import ChangePilot.Persistence.Opening

/-!
# What a SQLite unit of work works on

The snapshot is assembled by seven queries that see the database at different moments.
It is the database of one moment when what commits in the meantime does not tear it.
-/

namespace ChangePilot

namespace Opening

variable {opening : Opening} {db : Database}

theorem fromStore_injective {R : Records} :
    Function.Injective (Snapshot.fromStore : RecordStore R → Snapshot R) := by
  intro store other h
  obtain ⟨_, _, _, _, _, _, _⟩ := store
  obtain ⟨_, _, _, _, _, _, _⟩ := other
  simp only [Snapshot.fromStore, StagedTable.copy, Snapshot.mk.injEq, StagedTable.mk.injEq,
    and_true] at h
  obtain ⟨rfl, rfl, rfl, rfl, rfl, rfl, rfl⟩ := h
  rfl

/-- The queries read a moment when each of them reads what it would read then. -/
theorem fromConnection_eq_iff {other : Database} :
    opening.fromConnection db = .fromStore other.load ↔
      ∀ query : Query,
        query.rows (opening.database db (opening.before query)) = query.rows other := by
  rw [fromConnection, fromStore_injective.eq_iff]
  constructor
  · intro h query
    cases query with
    | events => exact congrArg (fun store => ({ events := store.events } : RecordStore _)) h
    | eventSequences =>
        exact congrArg (fun store => ({ eventSequences := store.eventSequences } : RecordStore _)) h
    | definitions =>
        exact congrArg (fun store => ({ definitions := store.definitions } : RecordStore _)) h
    | runs => exact congrArg (fun store => ({ runs := store.runs } : RecordStore _)) h
    | steps => exact congrArg (fun store => ({ steps := store.steps } : RecordStore _)) h
    | attempts => exact congrArg (fun store => ({ attempts := store.attempts } : RecordStore _)) h
    | approvals =>
        exact congrArg (fun store => ({ approvals := store.approvals } : RecordStore _)) h
  · intro h
    have hdefinitions := congrArg RecordStore.definitions (h .definitions)
    have hruns := congrArg RecordStore.runs (h .runs)
    have hsteps := congrArg RecordStore.steps (h .steps)
    have hattempts := congrArg RecordStore.attempts (h .attempts)
    have happrovals := congrArg RecordStore.approvals (h .approvals)
    have hevents := congrArg RecordStore.events (h .events)
    have hsequences := congrArg RecordStore.eventSequences (h .eventSequences)
    simp only [Query.rows, Query.load] at hdefinitions hruns hsteps hattempts
    simp only [Query.rows, Query.load] at happrovals hevents hsequences
    simp only [Query.all, List.foldl_cons, List.foldl_nil, Query.load, Database.load, hdefinitions,
      hruns, hsteps, hattempts, happrovals, hevents, hsequences]

theorem before_events_le (opening : Opening) (query : Query) :
    opening.before .events ≤ opening.before query := by
  have h := opening.ordered
  cases query <;> simp [Query.all] at h <;> omega

theorem le_before_approvals (opening : Opening) (query : Query) :
    opening.before query ≤ opening.before .approvals := by
  have h := opening.ordered
  cases query <;> simp [Query.all] at h <;> omega

end Opening

/-- Whatever other units of work commit while a unit of work opens: its snapshot is the
database of one moment unless it is torn, and where no rows return to what they were, it
is that of one moment only if it is not torn. -/
theorem snapshot_of_one_moment (db : Database) (opening : Opening) :
    (¬ opening.Torn db → opening.OneMoment db) ∧
      (Readings.NeverReturns Query.rows (opening.database db) →
        (opening.OneMoment db ↔ ¬ opening.Torn db)) := by
  have hsufficient (hnot : ¬ opening.Torn db) : opening.OneMoment db := by
    obtain ⟨n, hfirst, hlast, hsame⟩ := Readings.exists_moment hnot
      (opening.before_events_le .approvals) opening.before_events_le opening.le_before_approvals
    exact ⟨n, hfirst, hlast, Opening.fromConnection_eq_iff.mpr hsame⟩
  refine ⟨hsufficient, fun hreturns => ⟨fun h => ?_, hsufficient⟩⟩
  obtain ⟨n, _, _, hsnapshot⟩ := h
  exact Readings.not_torn_of_moment hreturns (Opening.fromConnection_eq_iff.mp hsnapshot)

/-- The run of the database `waiting`. -/
def waitingRun : WorkflowRun :=
  ⟨"run-1", "release", 1, "digest", .waitingApproval, 1, none, none⟩

/-- The run is cancelled by another unit of work when the events have been read. -/
def cancelledMeanwhile : Opening where
  commits := [stageEach Snapshot.stageSqlite (.fromStore waiting.load)
    [.saveRun (waitingRun.moved .cancelled) 1,
      .appendEvent (R := runtimeRecords) (waitingRun.movedEvent .cancelled 0)]]
  before query := if query = .events then 0 else 1
  ordered := by decide

/-- The snapshot has the number of the event of the cancellation, but not the event. -/
theorem cancellation_tears_snapshot : ¬ ∀ (db : Database) (opening : Opening),
    ∃ n, opening.fromConnection db = .fromStore (opening.database db n).load := by
  intro h
  obtain ⟨n, hn⟩ := h waiting cancelledMeanwhile
  have hevents := congrArg (fun snapshot => (snapshot.committedEvents "run-1").length) hn
  have hsequences := congrArg (fun snapshot => snapshot.committedEventSequences "run-1") hn
  cases n with
  | zero =>
      have hbefore : (1 : ℕ) = 0 := hsequences
      exact absurd hbefore (by decide)
  | succ n =>
      have htake : cancelledMeanwhile.commits.take (n + 1) = cancelledMeanwhile.commits :=
        List.take_of_length_le (Nat.le_add_left 1 n)
      simp only [Opening.database, htake] at hevents
      have hafter : (0 : ℕ) = 1 := hevents
      exact absurd hafter (by decide)

end ChangePilot
