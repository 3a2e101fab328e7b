import ChangePilot.Library.Readings
import ChangePilot.Persistence.Sqlite

/-!
# Opening a unit of work on SQLite

`_Snapshot.from_connection` runs one `SELECT` after another, each of which sees what is
committed when it runs: none of them opens a transaction.  Other units of work may commit
between any two of them.
-/

namespace ChangePilot

/-- The queries of `_load_event_rows` and of the `_load_…_rows` that follow it. -/
inductive Query where
  | events | eventSequences | definitions | runs | steps | attempts | approvals
deriving DecidableEq

namespace Query

/-- The queries in the order in which they are run. -/
def all : List Query :=
  [.events, .eventSequences, .definitions, .runs, .steps, .attempts, .approvals]

/-- Fill in what the query reads of the database. -/
def load (db : Database) (loaded : RecordStore runtimeRecords) : Query → RecordStore runtimeRecords
  | .events => { loaded with events := eventsOf db.auditEvents }
  | .eventSequences => { loaded with eventSequences := lastSequence db.runs }
  | .definitions => { loaded with definitions := db.definitions }
  | .runs => { loaded with runs := runColumn db.runs }
  | .steps => { loaded with steps := db.steps }
  | .attempts => { loaded with attempts := db.attempts }
  | .approvals => { loaded with approvals := db.approvals }

/-- What the query reads, by itself. -/
def rows (query : Query) (db : Database) : RecordStore runtimeRecords := query.load db {}

end Query

/-- What other units of work commit while a unit of work opens, and how many of these
commits come before each query. -/
structure Opening where
  commits : List (Snapshot runtimeRecords)
  before : Query → ℕ
  ordered : Query.all.Pairwise fun earlier later => before earlier ≤ before later

namespace Opening

variable (opening : Opening)

/-- The database after the first `n` commits. -/
def database (db : Database) (n : ℕ) : Database :=
  (opening.commits.take n).foldl (fun db snapshot => (commitSqlite snapshot db).2) db

/-- `_Snapshot.from_connection`, on the database `db` before the commits. -/
def fromConnection (db : Database) : Snapshot runtimeRecords :=
  .fromStore (Query.all.foldl
    (fun loaded query => query.load (opening.database db (opening.before query)) loaded) {})

/-- While the unit of work opens, rows change that have been read, and then, or with the
same commit, rows that are still to be read. -/
def Torn (db : Database) : Prop :=
  Readings.Torn Query.rows (opening.database db) opening.before

/-- The snapshot is that of the database at a moment while the unit of work opens. -/
def OneMoment (db : Database) : Prop :=
  ∃ n, opening.before .events ≤ n ∧ n ≤ opening.before .approvals ∧
    opening.fromConnection db = .fromStore (opening.database db n).load

end Opening

end ChangePilot
