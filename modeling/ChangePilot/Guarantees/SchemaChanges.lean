import ChangePilot.Guarantees.Migration
import ChangePilot.Sandbox.Scripts

/-!
# Schema changes that are interrupted

A migration or a rollback asks its connection for one thing after the other, and the
changes of the schema are there to stay as soon as they are made.  An interruption before
the first of them, or after the last commit, leaves the database as it was, or as the
change leaves it; any other one leaves something in between.

What an attempt leaves is read off from the trace of its change, that is, from the states of
the connection before each request:

* a change that does not proceed (`Shows.idle_migrate`, `Shows.idle_rollback`) commits nothing
  in any of them;
* of one that does, `trace_migrateV1ToV2` and `trace_rollbackV2ToV1` give the states.  They are
  as before up to the first change of the schema, and torn from then on: one lemma for each of
  them says why (`torn_altered`, `copied_ne`, `torn_dropped`, `torn_renamed`,
  `torn_unrecorded`);
* `left_of_trace` turns such a trace into the three ends of an attempt, `Left`, and
  `ChangeAttempt.atomic_iff` compares them with the condition.
-/

namespace ChangePilot

open Sql Script SQLiteSandboxDatabase

inductive SchemaChange where
  | migrate (idempotencyKey expectedFingerprint : String)
  | rollback (idempotencyKey : String)

namespace SchemaChange

def idempotencyKey : SchemaChange → String
  | migrate idempotencyKey _ | rollback idempotencyKey => idempotencyKey

/-- The id under which the ledger records the change. -/
def ledgerId : SchemaChange → String
  | migrate .. => migrationId
  | rollback _ => rollbackId

def script (runtime : Runtime) : SchemaChange → Requests MigrationResult
  | migrate idempotencyKey expectedFingerprint =>
      Scripts.migrateV1ToV2 runtime idempotencyKey expectedFingerprint
  | rollback idempotencyKey => Scripts.rollbackV2ToV1 runtime idempotencyKey

/-- The change without an interruption. -/
def complete (runtime : Runtime) : SchemaChange → SQLiteSandboxDatabase.Action MigrationResult
  | migrate idempotencyKey expectedFingerprint =>
      migrateV1ToV2 runtime idempotencyKey expectedFingerprint
  | rollback idempotencyKey => rollbackV2ToV1 runtime idempotencyKey

theorem transaction_script (runtime : Runtime) (change : SchemaChange) :
    transaction (session (change.script runtime)) = change.complete runtime := by
  cases change with
  | migrate idempotencyKey expectedFingerprint =>
      exact Scripts.transaction_migrateV1ToV2 runtime idempotencyKey expectedFingerprint
  | rollback idempotencyKey => exact Scripts.transaction_rollbackV2ToV1 runtime idempotencyKey

end SchemaChange

/-- A change that is interrupted before the request of some number: the request fails, or
the process dies.  Nothing happens if the change asks for less. -/
structure ChangeAttempt where
  change : SchemaChange
  interruption : Interruption (Raised DatabaseError)
  request : ℕ

/-- What the caller gets, if there still is one, and what is found when the database is
opened again. -/
def ChangeAttempt.run (runtime : Runtime) (attempt : ChangeAttempt) (d : Sql.Database) :
    Option (Except (Raised DatabaseError) MigrationResult) × Sql.Database :=
  let (result, c) := Prog.interrupted Request.perform attempt.interruption attempt.request
    (ExceptT.run (connected (attempt.change.script runtime))) { committed := d }
  (result, c.committed)

/-- One attempt after the other. -/
def runAttempts (runtime : Runtime) (attempts : List ChangeAttempt) (d : Sql.Database) :
    Sql.Database :=
  attempts.foldl (fun d attempt => (attempt.run runtime d).2) d

/-! ## What is asked of a change -/

/-- The recorded version is the one of the columns. -/
def VersionMatches (d : Sql.Database) : Prop :=
  ∃ version, (schemaVersion d).1 = .ok version ∧
    (d "orders").map Table.columns = some (columnsIn version)

/-- The ledger holds the key. -/
def HoldsKey (idempotencyKey : String) (d : Sql.Database) : Prop :=
  ∃ ledger ∈ d "migration_ledger", ∃ row ∈ ledger.rows,
    row.get "idempotency_key" = .text idempotencyKey

/-- The ledger holds an entry of the migration. -/
def HoldsMigration (migrationId : String) (d : Sql.Database) : Prop :=
  ∃ ledger ∈ d "migration_ledger", ∃ row ∈ ledger.rows,
    row.get "migration_id" = .text migrationId

/-- The database is as it was or as it should be, and as it was if the change raised; its
version is the one of its columns, and the key is recorded if and only if they changed. -/
structure ChangeAttempt.Atomic (runtime : Runtime) (attempt : ChangeAttempt) (d : Sql.Database) :
    Prop where
  before_or_after : (attempt.run runtime d).2 = d ∨
    ∃ result, attempt.change.complete runtime d = (.ok result, (attempt.run runtime d).2)
  before_of_raised : ∀ e, (attempt.run runtime d).1 = some (.error e) →
    (attempt.run runtime d).2 = d
  versionMatches : VersionMatches (attempt.run runtime d).2
  recorded : HoldsKey attempt.change.idempotencyKey (attempt.run runtime d).2 ↔
    HoldsKey attempt.change.idempotencyKey d ∨
      ((attempt.run runtime d).2 "orders").map Table.columns ≠ (d "orders").map Table.columns

/-! ## The condition -/

namespace SchemaChange

/-- Nothing stands in the way of the change: it comes to changing the schema. -/
def Proceeds (runtime : Runtime) (d : Sql.Database) : SchemaChange → Prop
  | migrate idempotencyKey expectedFingerprint =>
      ¬ HoldsKey idempotencyKey d ∧ (schemaVersion d).1 = .ok .v1 ∧
        (fingerprint runtime d).1 = .ok expectedFingerprint
  | rollback idempotencyKey =>
      ¬ HoldsKey idempotencyKey d ∧ (schemaVersion d).1 = .ok .v2 ∧
        d.select "orders" [] (.ne "priority" (.text "standard")) none = .ok [] ∧
        d "orders_v1" = none

/-- The first request that changes the schema: the `ALTER TABLE` of the migration, the
`CREATE TABLE` of the rollback's copy. -/
def changingRequest : SchemaChange → ℕ
  | migrate .. => 6
  | rollback _ => 5

/-- The number of requests, the commit at the end included. -/
def requests : SchemaChange → ℕ
  | migrate .. => 13
  | rollback _ => 15

end SchemaChange

/-- A change that comes to changing the schema is not interrupted from there on, and the
ledger holds no earlier change of its kind. -/
def ChangeAttempt.Undisturbed (runtime : Runtime) (attempt : ChangeAttempt) (d : Sql.Database) :
    Prop :=
  attempt.change.Proceeds runtime d → attempt.request ≤ attempt.change.changingRequest ∨
    (attempt.change.requests ≤ attempt.request ∧ ¬ HoldsMigration attempt.change.ledgerId d)

/-! ## Sandboxes -/

/-- The contents of a sandbox database.  A rollback may have left its copy of the orders. -/
structure SandboxContents where
  sandboxId : String
  orders : Orders
  entries : List LedgerEntry
  effects : Table
  leftover : Option Table := none
  leftover_v2 : leftover.isSome = true → orders.version = .v2

namespace SandboxContents

variable (contents : SandboxContents)

def database : Sql.Database :=
  (sandboxDatabase contents.sandboxId contents.orders contents.entries contents.effects).set
    "orders_v1" contents.leftover

theorem database_leftover : contents.database "orders_v1" = contents.leftover :=
  Database.set_self ..

/-- Without leftovers there are four tables. -/
theorem database_of_leftover_eq_none (h : contents.leftover = none) : contents.database =
    sandboxDatabase contents.sandboxId contents.orders contents.entries contents.effects := by
  rw [database, h]
  exact Database.set_eq_self rfl

end SandboxContents

/-! ## Reading -/

/-- The three tables of the contents. -/
structure Shows (d : Sql.Database) (sandboxId : String) (orders : Orders)
    (entries : List LedgerEntry) : Prop where
  metadata : d "sandbox_metadata" = some (metadataTable sandboxId orders.version)
  orders : d "orders" = some (ordersTable orders)
  ledger : d "migration_ledger" = some (ledgerTable entries)

theorem SandboxContents.shows (contents : SandboxContents) :
    Shows contents.database contents.sandboxId contents.orders contents.entries := ⟨rfl, rfl, rfl⟩

section

variable {d : Sql.Database} {sandboxId : String} {orders : Orders} {entries : List LedgerEntry}

theorem reads_schemaVersionIn {version : SchemaVersion}
    (h : d "sandbox_metadata" = some (metadataTable sandboxId version)) :
    Reads Scripts.schemaVersionIn 1 d version := by
  have hsame : d "sandbox_metadata" = tables (metadataTable sandboxId version) ⟨[], []⟩ ⟨[], []⟩
      ⟨[], []⟩ "sandbox_metadata" := h.trans tables_metadata.symm
  have hselect : d.select "sandbox_metadata" ["value"] (.eq "key" (.text "schema_version")) none =
      .ok [[.text version.value]] := by
    rw [Database.select_congr hsame, select_schemaVersion]
  refine (reads_select hselect).bind (m := 0) ?_
  cases version with
  | v1 => exact reads_pure _
  | v2 => exact reads_pure _

theorem Shows.reads_fingerprintIn (h : Shows d sandboxId orders entries) (runtime : Runtime) :
    Reads (Scripts.fingerprintIn runtime) 3 d (ordersFingerprint runtime orders) := by
  have hcolumns : d.tableInfo "orders" = (columnsIn orders.version).map Column.info := by
    rw [Database.tableInfo, h.orders]
    rfl
  have hsame : d "orders" = tables ⟨[], []⟩ (ordersTable orders) ⟨[], []⟩ ⟨[], []⟩ "orders" :=
    h.orders.trans tables_orders.symm
  have horders : d.select "orders" (orderColumns orders.version) .always (some "order_id") =
      .ok (selected orders) := by
    rw [Database.select_congr hsame, select_orders]
  refine (reads_schemaVersionIn h.metadata).bind (m := 2) ?_
  refine (reads_tableInfo "orders").bind (m := 1) ?_
  rw [hcolumns]
  exact (reads_select horders).bind (m := 0) (reads_pure _)

theorem Shows.reads_migrationByKey (h : Shows d sandboxId orders entries) (key : String) :
    Reads (Scripts.migrationByKey key) 1 d ((entries.find? fun entry =>
      entry.idempotencyKey = key).map fun entry => [.text entry.migrationId,
        .text entry.fromVersion.value, .text entry.toVersion.value,
        .text entry.databaseFingerprint]) := by
  have hentries := select_byKey ⟨[], []⟩ ⟨[], []⟩ ⟨[], []⟩ entries key
  rw [← Database.select_congr (h.ledger.trans tables_ledger.symm)] at hentries
  have hreads := (reads_select (ε := DatabaseError) hentries).bind (m := 0)
    (f := fun rows => pure rows.head?) (reads_pure _)
  rwa [List.head?_map, List.head?_filter] at hreads

/-- The rollback finds orders with another priority, or none. -/
theorem Shows.reads_nonstandard (h : Shows d sandboxId orders entries)
    (hv2 : orders.version = .v2) : ∃ nonstandard, d.select "orders" []
      (.ne "priority" (.text "standard")) none = .ok nonstandard ∧
      (nonstandard = [] ↔ AllStandard orders) := by
  have hsame : d "orders" = tables ⟨[], []⟩ (ordersTable orders) ⟨[], []⟩ ⟨[], []⟩ "orders" :=
    h.orders.trans tables_orders.symm
  obtain ⟨nonstandard, hselect, hlost⟩ := select_nonstandard orders ⟨[], []⟩ ⟨[], []⟩ ⟨[], []⟩ hv2
  refine ⟨nonstandard, (Database.select_congr hsame _ _ _).trans hselect, ?_⟩
  rw [List.length_pos_iff] at hlost
  tauto

theorem Shows.schemaVersion (h : Shows d sandboxId orders entries) :
    (schemaVersion d).1 = .ok orders.version := by
  rw [SQLiteSandboxDatabase.schemaVersion, ← Scripts.session_schemaVersionIn,
    (reads_schemaVersionIn h.metadata).transaction]

theorem Shows.fingerprint (h : Shows d sandboxId orders entries) (runtime : Runtime) :
    (fingerprint runtime d).1 = .ok (ordersFingerprint runtime orders) := by
  rw [SQLiteSandboxDatabase.fingerprint, ← Scripts.session_fingerprintIn,
    (h.reads_fingerprintIn runtime).transaction]

theorem Shows.holdsKey_iff (h : Shows d sandboxId orders entries) (key : String) :
    HoldsKey key d ↔ ∃ entry ∈ entries, entry.idempotencyKey = key := by
  simp [HoldsKey, h.ledger, ledgerTable, LedgerEntry.row]

theorem Shows.holdsMigration_iff (h : Shows d sandboxId orders entries) (migrationId : String) :
    HoldsMigration migrationId d ↔ ∃ entry ∈ entries, entry.migrationId = migrationId := by
  simp [HoldsMigration, h.ledger, ledgerTable, LedgerEntry.row]

theorem Shows.versionMatches (h : Shows d sandboxId orders entries) : VersionMatches d :=
  ⟨orders.version, h.schemaVersion, by rw [h.orders]; rfl⟩

end

/-! ## Attempts -/

section

variable {runtime : Runtime} {change : SchemaChange} {d : Sql.Database}

/-- What an attempt leaves can be read off from the trace of the change. -/
theorem ChangeAttempt.run_of_trace {attempt : ChangeAttempt} {states : List Connection}
    {r : Except (Raised DatabaseError) MigrationResult} {c : Connection}
    (h : Routine.Trace Request.perform (connected (attempt.change.script runtime))
      { committed := d } states r c) :
    attempt.run runtime d = match states[attempt.request]? with
      | some u => (match attempt.interruption with
          | .fails e => some (.error e)
          | .stops => none, u.committed)
      | none => (some r, c.committed) := by
  rw [run, h.interrupted_run]
  cases states[attempt.request]? with
  | none => rfl
  | some u =>
      cases attempt.interruption with
      | fails e => rfl
      | stops => rfl

/-- The change leaves what is committed as it is. -/
def Idle (runtime : Runtime) (change : SchemaChange) (d : Sql.Database) : Prop :=
  ∃ states r c, Routine.Trace Request.perform (connected (change.script runtime))
    { committed := d } states r c ∧ (∀ u ∈ states, u.committed = d) ∧ c.committed = d

theorem Idle.run_eq {attempt : ChangeAttempt} (h : Idle runtime attempt.change d) :
    (attempt.run runtime d).2 = d := by
  obtain ⟨states, r, c, htrace, hstates, hc⟩ := h
  rw [ChangeAttempt.run_of_trace htrace]
  split
  · rename_i u hu
    exact hstates u (List.mem_of_getElem? hu)
  · exact hc

theorem idle_of_reads {k : ℕ} {a : MigrationResult} (h : Reads (change.script runtime) k d a) :
    Idle runtime change d := by
  refine ⟨_, _, _, trace_connected (h _ rfl), ?_, rfl⟩
  simp only [List.mem_cons, List.mem_append, List.mem_replicate, List.not_mem_nil, or_false]
  rintro u (rfl | ⟨_, rfl⟩ | rfl)
  · rfl
  · rfl
  · rfl

theorem idle_of_rejects {k : ℕ} {e : Raised DatabaseError}
    (h : Rejects (change.script runtime) k d e) : Idle runtime change d := by
  refine ⟨_, _, _, trace_connected_of_error (h _ rfl), ?_, rfl⟩
  simp only [List.mem_cons, List.mem_replicate]
  rintro u (rfl | ⟨_, rfl⟩)
  · rfl
  · rfl

/-- A change whose key is in the ledger answers with the entry, or refuses it. -/
theorem appliedMigration_cases (migrationId : String) (entry : LedgerEntry) :
    (∃ a, Reads (Scripts.appliedMigration migrationId [.text entry.migrationId,
      .text entry.fromVersion.value, .text entry.toVersion.value,
      .text entry.databaseFingerprint]) 0 d a) ∨
    ∃ e, Rejects (Scripts.appliedMigration migrationId [.text entry.migrationId,
      .text entry.fromVersion.value, .text entry.toVersion.value,
      .text entry.databaseFingerprint]) 0 d e := by
  have hversion : ∀ version : SchemaVersion,
      Scripts.schemaVersionOf (.text version.value) = pure version := by
    intro version
    cases version with
    | v1 => rfl
    | v2 => rfl
  unfold Scripts.appliedMigration
  simp only [List.getD_cons_zero, List.getD_cons_succ, hversion]
  split
  · exact .inr ⟨_, (rejects_reject _).bind⟩
  · exact .inl ⟨_, reads_pure _⟩

end

section

variable {runtime : Runtime} {d : Sql.Database} {sandboxId : String} {orders : Orders}
  {entries : List LedgerEntry} {key expected : String}

/-- A key that is in the ledger is answered or refused. -/
theorem Shows.idle_of_key (h : Shows d sandboxId orders entries) {change : SchemaChange}
    (hkey : HoldsKey change.idempotencyKey d) : Idle runtime change d := by
  obtain ⟨entry, hentry⟩ : ∃ entry, (entries.find? fun entry =>
      entry.idempotencyKey = change.idempotencyKey) = some entry := by
    obtain ⟨entry, hmem, hsame⟩ := (h.holdsKey_iff _).mp hkey
    exact Option.isSome_iff_exists.mp (List.find?_isSome.mpr ⟨entry, hmem, by simpa using hsame⟩)
  have hread := h.reads_migrationByKey change.idempotencyKey
  rw [hentry] at hread
  cases change with
  | migrate key expected =>
      rcases appliedMigration_cases (d := d) migrationId entry with ⟨a, ha⟩ | ⟨e, he⟩
      · exact idle_of_reads (hread.bind ha)
      · exact idle_of_rejects (hread.bind_rejects he)
  | rollback key =>
      rcases appliedMigration_cases (d := d) rollbackId entry with ⟨a, ha⟩ | ⟨e, he⟩
      · exact idle_of_reads (hread.bind ha)
      · exact idle_of_rejects (hread.bind_rejects he)

theorem Shows.reads_newKey (h : Shows d sandboxId orders entries) (hkey : ¬ HoldsKey key d) :
    Reads (Scripts.migrationByKey key) 1 d none := by
  have hread := h.reads_migrationByKey key
  rwa [List.find?_eq_none.mpr fun entry hmem => by
    simpa using fun hsame => hkey ((h.holdsKey_iff key).mpr ⟨entry, hmem, hsame⟩)] at hread

/-- A migration that does not proceed leaves what is there. -/
theorem Shows.idle_migrate (h : Shows d sandboxId orders entries)
    (hstays : ¬ SchemaChange.Proceeds runtime d (.migrate key expected)) :
    Idle runtime (.migrate key expected) d := by
  by_cases hkey : HoldsKey key d
  · exact h.idle_of_key hkey
  · have hread := h.reads_newKey hkey
    cases hversion : orders.version with
    | v2 =>
        apply idle_of_rejects
        apply hread.bind_rejects
        apply (reads_schemaVersionIn h.metadata).bind_rejects
        rw [hversion]
        exact (rejects_reject _).bind
    | v1 =>
        have hfingerprint : ordersFingerprint runtime orders ≠ expected := by
          intro heq
          refine hstays ⟨hkey, ?_, ?_⟩
          · rw [h.schemaVersion, hversion]
          · rw [h.fingerprint, heq]
        apply idle_of_rejects
        apply hread.bind_rejects
        apply (reads_schemaVersionIn h.metadata).bind_rejects
        rw [hversion]
        apply (h.reads_fingerprintIn runtime).bind_rejects
        dsimp only
        rw [if_pos hfingerprint]
        exact (rejects_reject _).bind

/-- A rollback that does not proceed leaves what is there, also when it finds the copy
that an earlier one has left. -/
theorem Shows.idle_rollback (h : Shows d sandboxId orders entries)
    (hstays : ¬ SchemaChange.Proceeds runtime d (.rollback key)) :
    Idle runtime (.rollback key) d := by
  -- the key is known: the earlier result is returned
  by_cases hkey : HoldsKey key d
  · exact h.idle_of_key hkey
  · have hread := h.reads_newKey hkey
    have hcurrent := reads_schemaVersionIn h.metadata
    cases hversion : orders.version with
    -- nothing to roll back
    | v1 =>
        apply idle_of_rejects
        apply hread.bind_rejects
        apply hcurrent.bind_rejects
        rw [hversion]
        exact (rejects_reject _).bind
    | v2 =>
        obtain ⟨nonstandard, hselect, hstandard⟩ := h.reads_nonstandard hversion
        rw [hversion] at hcurrent
        by_cases hnone : nonstandard = []
        · -- the copy is there already
          have hcopy : d "orders_v1" ≠ none := by
            intro hcopy
            refine hstays ⟨hkey, ?_, hnone ▸ hselect, hcopy⟩
            rw [h.schemaVersion, hversion]
          let c : Connection := { committed := d }
          have hcreate : c.current.run (.createTable "orders_v1" ordersColumns) =
              .error (.operationalError "table orders_v1 already exists") := by
            show d.run _ = _
            rw [Database.run, if_pos (Option.isSome_iff_ne_none.mpr hcopy)]
            rfl
          have hscript : Routine.Trace Request.perform
              (Scripts.rollbackV2ToV1 runtime key) c (List.replicate 1 c ++ (List.replicate 1 c ++
                (List.replicate 1 c ++ ([c] ++ [c]))))
              (.error (.sql (.operationalError "table orders_v1 already exists"))) c := by
            refine (hread c rfl).bind ((hcurrent c rfl).bind ((reads_select hselect c rfl).bind ?_))
            dsimp only
            rw [if_neg (fun hlost => (List.length_pos_iff.mp hlost) hnone)]
            refine Routine.Trace.bind_of_error ?_
            exact (trace_commit c).bind (trace_autocommit_of_error hcreate).bind_of_error
          refine ⟨_, _, _, trace_connected_of_error hscript, ?_, rfl⟩
          intro u hu
          have hsame : u = { committed := d } ∨ u = c := by simpa using hu
          rcases hsame with rfl | rfl
          · rfl
          · rfl
        -- an order would lose its priority
        · apply idle_of_rejects
          apply hread.bind_rejects
          apply hcurrent.bind_rejects
          apply (reads_select hselect).bind_rejects
          dsimp only
          rw [if_pos (List.length_pos_iff.mpr hnone)]
          exact (rejects_reject _).bind

end

/-! ## Migrations that proceed -/

section

variable (runtime : Runtime) (sandboxId key : String) (orders : Orders)
  (entries : List LedgerEntry) (effects : Table)

/-- The new column is there, the new version is not recorded. -/
def alteredDatabase : Sql.Database :=
  tables (metadataTable sandboxId .v1) (ordersTable (orders.withPriority (some "standard")))
    (ledgerTable entries) effects

variable {r : Except (Raised DatabaseError) Unit} {c c0 c1 c2 : Connection}

/-- The statements of the migration, the last of which may fail: the new column is
committed, the rest is held in a transaction. -/
theorem trace_migrateV1ToV2 (hv1 : orders.version = .v1)
    (hkey : ∀ entry ∈ entries, entry.idempotencyKey ≠ key)
    (hc0 : c0 = ⟨sandboxDatabase sandboxId orders entries effects, none⟩)
    (hc1 : c1 = ⟨alteredDatabase sandboxId orders entries effects, none⟩)
    (hc2 : c2 = ⟨c1.committed, some (sandboxDatabase sandboxId
      (orders.withPriority (some "standard")) entries effects)⟩)
    (hinsert : Routine.Trace Request.perform (ask (.execute (insertLedger migrationId "v1" "v2" key
      (ordersFingerprint runtime (orders.withPriority (some "standard"))))) : Requests Unit)
      c2 [c2] r c) :
    Routine.Trace Request.perform
      (Scripts.migrateV1ToV2 runtime key (ordersFingerprint runtime orders)) c0
      [c0, c0, c0, c0, c0, c0, c1, c2, c2, c2, c2] (r.map fun _ => ⟨migrationId, .v1, .v2,
        ordersFingerprint runtime (orders.withPriority (some "standard")), false⟩) c := by
  have hshows : Shows c0.current sandboxId orders entries := by
    rw [hc0]
    exact ⟨rfl, rfl, rfl⟩
  have hshows2 : Shows c2.current sandboxId (orders.withPriority (some "standard")) entries := by
    rw [hc2]
    exact ⟨rfl, rfl, rfl⟩
  have hnew : ¬ HoldsKey key c0.current := by
    rw [hshows.holdsKey_iff]
    exact fun ⟨entry, hmem, hsame⟩ => hkey entry hmem hsame
  have hversion := reads_schemaVersionIn hshows.metadata c0 rfl
  -- `ALTER TABLE` is a statement of its own, outside any transaction
  have haltered : Routine.Trace Request.perform
      (ask (.execute (.addColumn "orders" priorityColumn)) : Requests Unit) c0 [c0] (.ok ())
      c1 := by
    rw [hc0, hc1]
    refine trace_execute_schema id ?_
    have hrun := run_addPriority orders (metadataTable sandboxId orders.version)
      (ledgerTable entries) effects hv1
    rw [hv1] at hrun
    rw [sandboxDatabase, hv1]
    exact hrun
  -- the update opens the transaction that the insertion is part of
  have hupdated : Routine.Trace Request.perform
      (ask (.execute (updateVersion "v2")) : Requests Unit) c1 [c1] (.ok ()) c2 := by
    rw [hc2]
    refine trace_execute_rows trivial ?_
    rw [hc1]
    exact run_updateVersion sandboxId _ _ _ .v1 .v2
  -- the insertion decides what is raised or returned
  have hlast : Routine.Trace Request.perform (do
      ask (.execute (insertLedger migrationId "v1" "v2" key
        (ordersFingerprint runtime (orders.withPriority (some "standard")))))
      return ⟨migrationId, .v1, .v2,
        ordersFingerprint runtime (orders.withPriority (some "standard")), false⟩ :
      Requests MigrationResult) c2 [c2] (r.map fun _ => ⟨migrationId, .v1, .v2,
        ordersFingerprint runtime (orders.withPriority (some "standard")), false⟩) c := by
    cases r with
    | error e => exact hinsert.bind_of_error
    | ok _ => exact hinsert.bind (Routine.trace_pure _ _)
  -- the states that the requests find, one after the other
  apply Routine.Trace.congr_states
  · apply (hshows.reads_newKey hnew c0 rfl).bind
    apply hversion.bind
    rw [hv1]
    apply (hshows.reads_fingerprintIn runtime c0 rfl).bind
    dsimp only
    rw [if_neg (not_not.mpr rfl)]
    apply haltered.bind
    apply hupdated.bind
    exact (hshows2.reads_fingerprintIn runtime c2 rfl).bind hlast
  · rfl

/-- The copies are there beside the orders. -/
def copiedDatabase (copied : Table) : Sql.Database :=
  (sandboxDatabase sandboxId orders entries effects).set "orders_v1" (some copied)

/-- The copies are the orders, the old version is still recorded. -/
def renamedDatabase : Sql.Database :=
  tables (metadataTable sandboxId orders.version) (ordersTable (orders.withPriority none))
    (ledgerTable entries) effects

variable {c3 c4 c5 : Connection}

/-- The statements of the rollback, the last of which may fail: all others are committed
one by one. -/
theorem trace_rollbackV2ToV1 (hv2 : orders.version = .v2) (hstandard : AllStandard orders)
    (hkey : ∀ entry ∈ entries, entry.idempotencyKey ≠ key)
    (hc0 : c0 = ⟨sandboxDatabase sandboxId orders entries effects, none⟩)
    (hc1 : c1 = ⟨copiedDatabase sandboxId orders entries effects { columns := ordersColumns },
      none⟩)
    (hc2 : c2 = ⟨copiedDatabase sandboxId orders entries effects
      (ordersTable (orders.withPriority none)), none⟩)
    (hc3 : c3 = ⟨c2.committed.set "orders" none, none⟩)
    (hc4 : c4 = ⟨renamedDatabase sandboxId orders entries effects, none⟩)
    (hc5 : c5 = ⟨sandboxDatabase sandboxId (orders.withPriority none) entries effects, none⟩)
    (hinsert : Routine.Trace Request.perform (ask (.execute (insertLedger rollbackId "v2" "v1" key
      (ordersFingerprint runtime (orders.withPriority none)))) : Requests Unit) c5 [c5] r c) :
    Routine.Trace Request.perform (Scripts.rollbackV2ToV1 runtime key) c0
      [c0, c0, c0, c0, c0, c1, c2, c3, c4, c5, c5, c5, c5] (r.map fun _ =>
        ⟨rollbackId, .v2, .v1, ordersFingerprint runtime (orders.withPriority none), false⟩) c := by
  have hshows : Shows c0.current sandboxId orders entries := by
    rw [hc0]
    exact ⟨rfl, rfl, rfl⟩
  have hshows5 : Shows c5.current sandboxId (orders.withPriority none) entries := by
    rw [hc5]
    exact ⟨rfl, rfl, rfl⟩
  have hnew : ¬ HoldsKey key c0.current := by
    rw [hshows.holdsKey_iff]
    exact fun ⟨entry, hmem, hsame⟩ => hkey entry hmem hsame
  have hversion := reads_schemaVersionIn hshows.metadata c0 rfl
  obtain ⟨nonstandard, hselect, hnone⟩ := hshows.reads_nonstandard hv2
  -- `executescript` commits first, and each statement commits by itself
  have hscript : Routine.Trace Request.perform (Script.executeScript [
      .createTable "orders_v1" ordersColumns,
      .insertSelect "orders_v1" ["order_id", "customer", "total_cents"]
        "orders" ["order_id", "customer", "total_cents"],
      .dropTable "orders",
      .renameTable "orders_v1" "orders",
      updateVersion "v1"] : Requests Unit) c0
      ([c0] ++ ([c0] ++ ([c1] ++ ([c2] ++ ([c3] ++ ([c4] ++ [])))))) (.ok ()) c5 := by
    subst hc0 hc1 hc2 hc3 hc4 hc5
    refine (trace_commit ⟨sandboxDatabase sandboxId orders entries effects, none⟩).bind ?_
    refine (trace_autocommit (run_createCopy _)).bind ?_
    refine (trace_autocommit (run_copyOrders _)).bind ?_
    refine (trace_autocommit (run_dropOrders _ _)).bind ?_
    refine (trace_autocommit (run_renameCopy _ _)).bind ?_
    exact (trace_autocommit (run_updateVersion sandboxId _ _ _ orders.version .v1)).bind
      (Routine.trace_pure () _)
  -- the insertion decides what is raised or returned
  have hlast : Routine.Trace Request.perform (do
      ask (.execute (insertLedger rollbackId "v2" "v1" key
        (ordersFingerprint runtime (orders.withPriority none))))
      return ⟨rollbackId, .v2, .v1, ordersFingerprint runtime (orders.withPriority none), false⟩ :
      Requests MigrationResult) c5 [c5] (r.map fun _ =>
        ⟨rollbackId, .v2, .v1, ordersFingerprint runtime (orders.withPriority none), false⟩) c := by
    cases r with
    | error e => exact hinsert.bind_of_error
    | ok _ => exact hinsert.bind (Routine.trace_pure _ _)
  -- the states that the requests find, one after the other
  apply Routine.Trace.congr_states
  · apply (hshows.reads_newKey hnew c0 rfl).bind
    apply hversion.bind
    rw [hv2]
    apply (reads_select hselect c0 rfl).bind
    dsimp only
    rw [if_neg (fun hlost => List.length_pos_iff.mp hlost (hnone.mpr hstandard))]
    apply hscript.bind
    exact (hshows5.reads_fingerprintIn runtime c5 rfl).bind hlast
  · rfl

/-- The last statement records the change, unless one of its kind is recorded already. -/
theorem trace_insertLedger (entry : LedgerEntry)
    (hkey : ∀ other ∈ entries, other.idempotencyKey ≠ entry.idempotencyKey)
    (hc : c.current = sandboxDatabase sandboxId orders entries effects) :
    ((∀ other ∈ entries, other.migrationId ≠ entry.migrationId) →
      Routine.Trace Request.perform (ask (.execute (insertLedger entry.migrationId
        entry.fromVersion.value entry.toVersion.value entry.idempotencyKey
        entry.databaseFingerprint)) : Requests Unit) c [c] (.ok ())
        ⟨c.committed, some (sandboxDatabase sandboxId orders (entries ++ [entry]) effects)⟩) ∧
    ((∃ other ∈ entries, other.migrationId = entry.migrationId) → ∃ e,
      Routine.Trace Request.perform (ask (.execute (insertLedger entry.migrationId
        entry.fromVersion.value entry.toVersion.value entry.idempotencyKey
        entry.databaseFingerprint)) : Requests Unit) c [c] (.error e) c.begin) := by
  constructor
  · intro hnew
    refine trace_execute_rows trivial ?_
    rw [hc]
    exact run_insertLedger _ _ _ entry fun other hother => ⟨hnew other hother, hkey other hother⟩
  · intro ⟨other, hother, hsame⟩
    cases hinsert : c.current.run (insertLedger entry.migrationId entry.fromVersion.value
      entry.toVersion.value entry.idempotencyKey entry.databaseFingerprint) with
    | error error => exact ⟨_, trace_execute_rows_of_error trivial hinsert⟩
    | ok next =>
        -- the id is the primary key
        exfalso
        rw [hc, sandboxDatabase, insertLedger, Database.run_insert_eq_ok_iff tables_ledger
          (by simp [names_ledgerTable])] at hinsert
        have hunique := (hinsert.2.1 _ List.mem_cons_self).unique (.inl rfl) Sql.Value.noConfusion
        exact hunique _ (List.mem_map_of_mem hother) (congrArg Sql.Value.text hsame)

end

/-! ## What an attempt leaves -/

section

variable {runtime : Runtime} {attempt : ChangeAttempt} {d : Sql.Database} {sandboxId : String}
  {orders : Orders} {entries : List LedgerEntry}

/-- Who leaves the database as it is has done nothing wrong. -/
theorem atomic_of_same (h : Shows d sandboxId orders entries)
    (hsame : (attempt.run runtime d).2 = d) : attempt.Atomic runtime d where
  before_or_after := .inl hsame
  before_of_raised _ _ := hsame
  versionMatches := hsame.symm ▸ h.versionMatches
  recorded := by
    rw [hsame]
    simp

/-- A database that no atomic change leaves: its version is not the one of its columns, or
they have changed and the key is not recorded, or it is neither what there was nor what the
change makes of it. -/
def Torn (runtime : Runtime) (change : SchemaChange) (d next : Sql.Database) : Prop :=
  ¬ VersionMatches next ∨
    (¬ HoldsKey change.idempotencyKey next ∧
      (next "orders").map Table.columns ≠ (d "orders").map Table.columns) ∨
    (next ≠ d ∧ ∀ result, change.complete runtime d ≠ (.ok result, next))

theorem not_atomic_of_torn (h : Torn runtime attempt.change d (attempt.run runtime d).2) :
    ¬ attempt.Atomic runtime d := by
  intro hatomic
  rcases h with hversion | ⟨hkey, hcolumns⟩ | ⟨hne, hincomplete⟩
  · exact hversion hatomic.versionMatches
  · exact hkey (hatomic.recorded.mpr (.inr hcolumns))
  · rcases hatomic.before_or_after with hsame | ⟨result, hcomplete⟩
    · exact hne hsame
    · exact hincomplete result hcomplete

/-- Where the interruption comes in a trace that is cut in two. -/
theorem ChangeAttempt.run_of_append {states later : List Connection}
    {r : Except (Raised DatabaseError) MigrationResult} {c : Connection}
    (h : Routine.Trace Request.perform (connected (attempt.change.script runtime))
      { committed := d } (states ++ later) r c) :
    (∃ u ∈ states, attempt.request < states.length ∧ (attempt.run runtime d).2 = u.committed) ∨
    (∃ u ∈ later, states.length ≤ attempt.request ∧
      attempt.request < states.length + later.length ∧
      (attempt.run runtime d).2 = u.committed) ∨
    (states.length + later.length ≤ attempt.request ∧
      attempt.run runtime d = (some r, c.committed)) := by
  rw [ChangeAttempt.run_of_trace h]
  rcases lt_or_ge attempt.request states.length with hbefore | hafter
  · left
    rw [List.getElem?_append_left hbefore, List.getElem?_eq_getElem hbefore]
    exact ⟨_, List.getElem_mem hbefore, hbefore, rfl⟩
  · right
    rcases lt_or_ge attempt.request (states.length + later.length) with hlater | hend
    · left
      have hindex : attempt.request - states.length < later.length := by omega
      rw [List.getElem?_append_right hafter, List.getElem?_eq_getElem hindex]
      exact ⟨_, List.getElem_mem hindex, hafter, hlater, rfl⟩
    · right
      rw [List.getElem?_eq_none (by rw [List.length_append]; exact hend)]
      exact ⟨hend, rfl⟩

/-- The end of a trace is the end of the change. -/
theorem complete_of_trace {states : List Connection}
    {r : Except (Raised DatabaseError) MigrationResult} {c : Connection} {change : SchemaChange}
    (h : Routine.Trace Request.perform (connected (change.script runtime))
      { committed := d } states r c) : change.complete runtime d = (r, c.committed) := by
  have hsession : session (connected (change.script runtime)) { committed := d } = (r, c) := h.alone
  rw [← SchemaChange.transaction_script, transaction_session, hsession]

theorem columnsIn_ne : columnsIn .v1 ≠ columnsIn .v2 := by decide

/-- What is recorded is one version, the columns are those of the other one. -/
theorem not_versionMatches {version : SchemaVersion}
    (hmetadata : d "sandbox_metadata" = some (metadataTable sandboxId version))
    (horders : (d "orders").map Table.columns ≠ some (columnsIn version)) :
    ¬ VersionMatches d := by
  intro ⟨recorded, hrecorded, hcolumns⟩
  rw [SQLiteSandboxDatabase.schemaVersion, ← Scripts.session_schemaVersionIn,
    (reads_schemaVersionIn hmetadata).transaction] at hrecorded
  obtain rfl := Except.ok.inj hrecorded
  exact horders hcolumns

/-- The three ends of a change that proceeds: it is interrupted early enough, or it is torn,
or it is completed and recorded. -/
inductive Left (runtime : Runtime) (attempt : ChangeAttempt) (contents : SandboxContents) : Prop
  | kept
      (hearly : attempt.request ≤ attempt.change.changingRequest)
      (hsame : (attempt.run runtime contents.database).2 = contents.database)
  | torn
      (hlate : attempt.change.changingRequest < attempt.request)
      (hdisturbed : attempt.request < attempt.change.requests ∨
        HoldsMigration attempt.change.ledgerId contents.database)
      (htorn : Torn runtime attempt.change contents.database
        (attempt.run runtime contents.database).2)
  | completed (result : MigrationResult) (later : SandboxContents)
      (hlate : attempt.change.requests ≤ attempt.request)
      (hfirst : ¬ HoldsMigration attempt.change.ledgerId contents.database)
      (hrun : attempt.run runtime contents.database = (some (.ok result), later.database))
      (hcomplete : attempt.change.complete runtime contents.database = (.ok result, later.database))
      (hkey : HoldsKey attempt.change.idempotencyKey later.database)
      (hcolumns : (later.database "orders").map Table.columns ≠
        (contents.database "orders").map Table.columns)

/-- The end of a change that is not interrupted: it is refused at last because one of its
kind is recorded, or it is completed. -/
inductive Finished (runtime : Runtime) (change : SchemaChange) (d : Sql.Database) (length : ℕ) :
    Except (Raised DatabaseError) MigrationResult → Sql.Database → Prop
  | refused (e : Raised DatabaseError) (d' : Sql.Database)
      (hrecorded : HoldsMigration change.ledgerId d) (htorn : Torn runtime change d d') :
      Finished runtime change d length (.error e) d'
  | completed (result : MigrationResult) (later : SandboxContents)
      (hfirst : ¬ HoldsMigration change.ledgerId d) (hlength : change.requests = length)
      (hkey : HoldsKey change.idempotencyKey later.database)
      (hcolumns : (later.database "orders").map Table.columns ≠ (d "orders").map Table.columns)
      (hcopy : later.database "orders_v1" = d "orders_v1") :
      Finished runtime change d length (.ok result) later.database

/-- A copy of the orders that was not there is left by no completed change. -/
theorem torn_of_copied {next d' : Sql.Database} {change : SchemaChange} {length : ℕ}
    {r : Except (Raised DatabaseError) MigrationResult}
    (hcomplete : change.complete runtime d = (r, d'))
    (hfinished : Finished runtime change d length r d')
    (hcopied : next "orders_v1" ≠ d "orders_v1") : Torn runtime change d next := by
  refine .inr (.inr ⟨fun hsame => hcopied (congrFun hsame _), fun result hresult => ?_⟩)
  obtain ⟨rfl, rfl⟩ := Prod.mk.inj (hcomplete.symm.trans hresult)
  cases hfinished with
  | completed result later hfirst hlength hkey hcolumns hcopy => exact hcopied hcopy

/-- A change that keeps the database for some time, and tears it from then on to the commit. -/
theorem left_of_trace {contents : SandboxContents} (states later : List Connection)
    {r : Except (Raised DatabaseError) MigrationResult} {c : Connection}
    (htrace : Routine.Trace Request.perform (connected (attempt.change.script runtime))
      { committed := contents.database } (states ++ later) r c)
    (hlength : states.length = attempt.change.changingRequest + 1)
    (hstates : ∀ u ∈ states, u.committed = contents.database)
    (hlater : ∀ u ∈ later, Torn runtime attempt.change contents.database u.committed ∨
      u.committed "orders_v1" ≠ contents.database "orders_v1")
    (hfinished : Finished runtime attempt.change contents.database
      (states.length + later.length) r c.committed) : Left runtime attempt contents := by
  have hcomplete := complete_of_trace htrace
  rcases ChangeAttempt.run_of_append htrace with ⟨u, hu, hearly, hrun⟩ |
    ⟨u, hu, hlate, hbefore, hrun⟩ | ⟨hlate, hrun⟩
  · exact .kept (by omega) (hrun.trans (hstates u hu))
  · have htorn : Torn runtime attempt.change contents.database u.committed :=
      (hlater u hu).elim id (torn_of_copied hcomplete hfinished)
    refine .torn (by omega) ?_ (hrun ▸ htorn)
    generalize c.committed = d' at hfinished
    cases hfinished with
    | refused e d' hrecorded htorn => exact .inr hrecorded
    | completed result later hfirst hlength hkey hcolumns hcopy => exact .inl (by omega)
  · generalize c.committed = d' at hfinished hrun hcomplete
    cases hfinished with
    | refused e d' hrecorded htorn =>
        exact .torn (by omega) (.inr hrecorded) (hrun ▸ htorn)
    | completed result later hfirst hlength hkey hcolumns hcopy =>
        exact .completed result later (by omega) hfirst hrun hcomplete hkey hcolumns

/-- The contents after a migration. -/
def SandboxContents.migrated (contents : SandboxContents) (runtime : Runtime) (key : String) :
    SandboxContents where
  sandboxId := contents.sandboxId
  orders := contents.orders.withPriority (some "standard")
  entries := contents.entries ++ [migrationEntry runtime key contents.orders]
  effects := contents.effects
  leftover_v2 _ := rfl

/-- The contents after a rollback. -/
def SandboxContents.rolledBack (contents : SandboxContents) (runtime : Runtime) (key : String) :
    SandboxContents where
  sandboxId := contents.sandboxId
  orders := contents.orders.withPriority none
  entries := contents.entries ++ [rollbackEntry runtime key contents.orders]
  effects := contents.effects
  leftover_v2 h := absurd h (by decide)

/-! ### The states in between -/

section

variable {change : SchemaChange} {contents : SandboxContents}

/-- After the `ALTER TABLE` the version is still v1. -/
theorem torn_altered : Torn runtime change contents.database
    (alteredDatabase contents.sandboxId contents.orders contents.entries contents.effects) := by
  have hmetadata : alteredDatabase contents.sandboxId contents.orders contents.entries
      contents.effects "sandbox_metadata" = some (metadataTable contents.sandboxId .v1) := rfl
  refine .inl (not_versionMatches hmetadata ?_)
  exact fun hcolumns => columnsIn_ne (Option.some.inj hcolumns).symm

/-- The copy was not there before. -/
theorem copied_ne (hleftover : contents.leftover = none) (copied : Table) :
    copiedDatabase contents.sandboxId contents.orders contents.entries contents.effects copied
      "orders_v1" ≠ contents.database "orders_v1" := by
  rw [contents.database_leftover, hleftover]
  exact Option.some_ne_none _

/-- Without the table of orders there are no columns. -/
theorem torn_dropped {next : Sql.Database} (hdropped : next "orders" = none) :
    Torn runtime change contents.database next := by
  refine .inl fun ⟨version, _, hcolumns⟩ => ?_
  rw [hdropped] at hcolumns
  cases hcolumns

/-- The copy has the columns of v1, the version is still v2. -/
theorem torn_renamed (hv2 : contents.orders.version = .v2) :
    Torn runtime change contents.database
      (renamedDatabase contents.sandboxId contents.orders contents.entries contents.effects) := by
  have hmetadata : renamedDatabase contents.sandboxId contents.orders contents.entries
      contents.effects "sandbox_metadata" =
        some (metadataTable contents.sandboxId contents.orders.version) := rfl
  refine .inl (not_versionMatches hmetadata ?_)
  rw [hv2]
  exact fun hcolumns => columnsIn_ne (Option.some.inj hcolumns)

/-- The rollback is made, and is not in the ledger. -/
theorem torn_unrecorded (hv2 : contents.orders.version = .v2)
    (hnew : ¬ HoldsKey change.idempotencyKey contents.database) :
    Torn runtime change contents.database (sandboxDatabase contents.sandboxId
      (contents.orders.withPriority none) contents.entries contents.effects) := by
  have hshows : Shows (sandboxDatabase contents.sandboxId (contents.orders.withPriority none)
      contents.entries contents.effects) contents.sandboxId (contents.orders.withPriority none)
      contents.entries := ⟨rfl, rfl, rfl⟩
  refine .inr (.inl ⟨?_, ?_⟩)
  · rwa [hshows.holdsKey_iff, ← contents.shows.holdsKey_iff]
  · rw [hshows.orders, contents.shows.orders]
    show some (columnsIn .v1) ≠ some (columnsIn contents.orders.version)
    rw [hv2]
    exact fun hcolumns => columnsIn_ne (Option.some.inj hcolumns)

/-! ### The changes that proceed -/

/-- A completed migration is in the ledger. -/
theorem finished_migrated {key expected : String} (hchange : change = .migrate key expected)
    (hv1 : contents.orders.version = .v1) (hleftover : contents.leftover = none)
    (hfirst : ¬ HoldsMigration change.ledgerId contents.database) (result : MigrationResult) :
    Finished runtime change contents.database 13 (.ok result)
      (contents.migrated runtime key).database := by
  subst hchange
  refine .completed result _ hfirst rfl ?_ ?_ ?_
  · rw [(contents.migrated runtime key).shows.holdsKey_iff]
    exact ⟨_, List.mem_append_right _ List.mem_cons_self, rfl⟩
  · show some (columnsIn .v2) ≠ some (columnsIn contents.orders.version)
    rw [hv1]
    exact fun h => columnsIn_ne (Option.some.inj h).symm
  · rw [(contents.migrated runtime key).database_leftover, contents.database_leftover, hleftover]
    rfl

/-- A completed rollback is in the ledger, and its copy has become the table of orders. -/
theorem finished_rolledBack {key : String} (hchange : change = .rollback key)
    (hv2 : contents.orders.version = .v2) (hleftover : contents.leftover = none)
    (hfirst : ¬ HoldsMigration change.ledgerId contents.database) (result : MigrationResult) :
    Finished runtime change contents.database 15 (.ok result)
      (contents.rolledBack runtime key).database := by
  subst hchange
  refine .completed result _ hfirst rfl ?_ ?_ ?_
  · rw [(contents.rolledBack runtime key).shows.holdsKey_iff]
    exact ⟨_, List.mem_append_right _ List.mem_cons_self, rfl⟩
  · show some (columnsIn .v1) ≠ some (columnsIn contents.orders.version)
    rw [hv2]
    exact fun h => columnsIn_ne (Option.some.inj h)
  · rw [(contents.rolledBack runtime key).database_leftover, contents.database_leftover,
      hleftover]
    rfl

end

/-- A migration that proceeds: its only early commit is that of the new column. -/
theorem left_of_migrate {contents : SandboxContents} {key expected : String}
    (hchange : attempt.change = .migrate key expected)
    (hproceeds : attempt.change.Proceeds runtime contents.database) :
    Left runtime attempt contents := by
  rw [hchange] at hproceeds
  obtain ⟨hnew, hversion, hfingerprint⟩ := hproceeds
  have hshows := contents.shows
  have hv1 : contents.orders.version = .v1 :=
    Except.ok.inj (hshows.schemaVersion.symm.trans hversion)
  have hexpected : expected = ordersFingerprint runtime contents.orders :=
    Except.ok.inj (hfingerprint.symm.trans (hshows.fingerprint runtime))
  have hleftover : contents.leftover = none := by
    rw [← Option.not_isSome_iff_eq_none]
    intro hsome
    rw [contents.leftover_v2 hsome] at hv1
    cases hv1
  have hkeys : ∀ entry ∈ contents.entries, entry.idempotencyKey ≠ key :=
    fun entry hentry hsame => hnew ((hshows.holdsKey_iff key).mpr ⟨entry, hentry, hsame⟩)
  have hdatabase := contents.database_of_leftover_eq_none hleftover
  let c0 : Connection := ⟨contents.database, none⟩
  let c1 : Connection :=
    ⟨alteredDatabase contents.sandboxId contents.orders contents.entries contents.effects, none⟩
  let c2 : Connection := ⟨c1.committed, some (sandboxDatabase contents.sandboxId
    (contents.orders.withPriority (some "standard")) contents.entries contents.effects)⟩
  have hscript : attempt.change.script runtime =
      Scripts.migrateV1ToV2 runtime key (ordersFingerprint runtime contents.orders) := by
    rw [hchange, hexpected]
    rfl
  have hc0 : c0 = ⟨sandboxDatabase contents.sandboxId contents.orders contents.entries
      contents.effects, none⟩ := congrArg (fun d => Connection.mk d none) hdatabase
  have hlength : 7 = attempt.change.changingRequest + 1 := by rw [hchange]; rfl
  have hkept : ∀ u ∈ List.replicate 7 c0, u.committed = contents.database :=
    fun u hu => congrArg Connection.committed (List.eq_of_mem_replicate hu)
  have htorn : Torn runtime attempt.change contents.database c1.committed := torn_altered
  have hinsert := trace_insertLedger contents.sandboxId
    (contents.orders.withPriority (some "standard")) contents.entries contents.effects (c := c2)
    (migrationEntry runtime key contents.orders) hkeys rfl
  have hledger : HoldsMigration attempt.change.ledgerId contents.database ↔
      ∃ other ∈ contents.entries, other.migrationId = migrationId := by
    rw [hchange]
    exact hshows.holdsMigration_iff migrationId
  by_cases hfirst : ∃ other ∈ contents.entries, other.migrationId = migrationId
  · obtain ⟨e, herror⟩ := hinsert.2 hfirst
    have htrace := trace_connected_of_error (trace_migrateV1ToV2 runtime contents.sandboxId key
      contents.orders contents.entries contents.effects hv1 hkeys hc0 rfl rfl herror)
    rw [← hscript] at htrace
    refine left_of_trace (List.replicate 7 c0) [c1, c2, c2, c2, c2] htrace hlength hkept ?_
      (.refused e _ (hledger.mpr hfirst) htorn)
    -- what the transaction holds is not committed
    simp only [List.forall_mem_cons, List.not_mem_nil, false_implies, implies_true, and_true]
    exact ⟨.inl htorn, .inl htorn, .inl htorn, .inl htorn, .inl htorn⟩
  · have hinserted := hinsert.1 fun other hother hsame => hfirst ⟨other, hother, hsame⟩
    have htrace := trace_connected (trace_migrateV1ToV2 runtime contents.sandboxId key
      contents.orders contents.entries contents.effects hv1 hkeys hc0 rfl rfl hinserted)
    rw [← hscript] at htrace
    let c3 : Connection := ⟨c1.committed, some (sandboxDatabase contents.sandboxId
      (contents.orders.withPriority (some "standard"))
      (contents.entries ++ [migrationEntry runtime key contents.orders]) contents.effects)⟩
    have hmigrated : c3.current = (contents.migrated runtime key).database :=
      ((contents.migrated runtime key).database_of_leftover_eq_none rfl).symm
    refine left_of_trace (List.replicate 7 c0) [c1, c2, c2, c2, c2, c3] htrace hlength hkept ?_ ?_
    · simp only [List.forall_mem_cons, List.not_mem_nil, false_implies, implies_true, and_true]
      exact ⟨.inl htorn, .inl htorn, .inl htorn, .inl htorn, .inl htorn, .inl htorn⟩
    · show Finished runtime attempt.change contents.database 13 (.ok _) c3.current
      rw [hmigrated]
      exact finished_migrated hchange hv1 hleftover (fun h => hfirst (hledger.mp h)) _

/-- A rollback that proceeds: every statement of its script is committed by itself. -/
theorem left_of_rollback {contents : SandboxContents} {key : String}
    (hchange : attempt.change = .rollback key)
    (hproceeds : attempt.change.Proceeds runtime contents.database) :
    Left runtime attempt contents := by
  rw [hchange] at hproceeds
  obtain ⟨hnew, hversion, hstandard, hcopy⟩ := hproceeds
  have hshows := contents.shows
  have hv2 : contents.orders.version = .v2 :=
    Except.ok.inj (hshows.schemaVersion.symm.trans hversion)
  have hleftover : contents.leftover = none := contents.database_leftover.symm.trans hcopy
  have hall : AllStandard contents.orders := by
    obtain ⟨nonstandard, hselect, hnone⟩ := hshows.reads_nonstandard hv2
    exact hnone.mp (Except.ok.inj (hselect.symm.trans hstandard))
  have hkeys : ∀ entry ∈ contents.entries, entry.idempotencyKey ≠ key :=
    fun entry hentry hsame => hnew ((hshows.holdsKey_iff key).mpr ⟨entry, hentry, hsame⟩)
  have hdatabase := contents.database_of_leftover_eq_none hleftover
  let c0 : Connection := ⟨contents.database, none⟩
  let c1 : Connection := ⟨copiedDatabase contents.sandboxId contents.orders contents.entries
    contents.effects { columns := ordersColumns }, none⟩
  let c2 : Connection := ⟨copiedDatabase contents.sandboxId contents.orders contents.entries
    contents.effects (ordersTable (contents.orders.withPriority none)), none⟩
  let c3 : Connection := ⟨c2.committed.set "orders" none, none⟩
  let c4 : Connection :=
    ⟨renamedDatabase contents.sandboxId contents.orders contents.entries contents.effects, none⟩
  let c5 : Connection := ⟨sandboxDatabase contents.sandboxId (contents.orders.withPriority none)
    contents.entries contents.effects, none⟩
  have hc0 : c0 = ⟨sandboxDatabase contents.sandboxId contents.orders contents.entries
      contents.effects, none⟩ := congrArg (fun d => Connection.mk d none) hdatabase
  have hscript : attempt.change.script runtime = Scripts.rollbackV2ToV1 runtime key := by
    rw [hchange]
    rfl
  have hlength : 6 = attempt.change.changingRequest + 1 := by rw [hchange]; rfl
  have hkept : ∀ u ∈ List.replicate 6 c0, u.committed = contents.database :=
    fun u hu => congrArg Connection.committed (List.eq_of_mem_replicate hu)
  have hdropped : Torn runtime attempt.change contents.database c3.committed :=
    torn_dropped (Database.set_self c2.committed "orders" none)
  have hrenamed : Torn runtime attempt.change contents.database c4.committed := torn_renamed hv2
  have hunrecorded : Torn runtime attempt.change contents.database c5.committed :=
    torn_unrecorded hv2 (by rwa [hchange])
  -- from the copy on, nothing is as it was
  have hlater : ∀ u ∈ [c1, c2, c3, c4, c5, c5, c5, c5],
      Torn runtime attempt.change contents.database u.committed ∨
        u.committed "orders_v1" ≠ contents.database "orders_v1" := by
    simp only [List.forall_mem_cons, List.not_mem_nil, false_implies, implies_true, and_true]
    exact ⟨.inr (copied_ne hleftover _), .inr (copied_ne hleftover _), .inl hdropped,
      .inl hrenamed, .inl hunrecorded, .inl hunrecorded, .inl hunrecorded, .inl hunrecorded⟩
  have hinsert := trace_insertLedger contents.sandboxId (contents.orders.withPriority none)
    contents.entries contents.effects (c := c5) (rollbackEntry runtime key contents.orders) hkeys
    rfl
  have hledger : HoldsMigration attempt.change.ledgerId contents.database ↔
      ∃ other ∈ contents.entries, other.migrationId = rollbackId := by
    rw [hchange]
    exact hshows.holdsMigration_iff rollbackId
  by_cases hfirst : ∃ other ∈ contents.entries, other.migrationId = rollbackId
  · obtain ⟨e, herror⟩ := hinsert.2 hfirst
    have htrace := trace_connected_of_error (trace_rollbackV2ToV1 runtime contents.sandboxId key
      contents.orders contents.entries contents.effects hv2 hall hkeys hc0 rfl rfl rfl rfl rfl
      herror)
    rw [← hscript] at htrace
    exact left_of_trace (List.replicate 6 c0) [c1, c2, c3, c4, c5, c5, c5, c5] htrace hlength
      hkept hlater (.refused e _ (hledger.mpr hfirst) hunrecorded)
  · have hinserted := hinsert.1 fun other hother hsame => hfirst ⟨other, hother, hsame⟩
    have htrace := trace_connected (trace_rollbackV2ToV1 runtime contents.sandboxId key
      contents.orders contents.entries contents.effects hv2 hall hkeys hc0 rfl rfl rfl rfl rfl
      hinserted)
    rw [← hscript] at htrace
    let c6 : Connection := ⟨c5.committed, some (sandboxDatabase contents.sandboxId
      (contents.orders.withPriority none)
      (contents.entries ++ [rollbackEntry runtime key contents.orders]) contents.effects)⟩
    have hrolledBack : c6.current = (contents.rolledBack runtime key).database :=
      ((contents.rolledBack runtime key).database_of_leftover_eq_none rfl).symm
    refine left_of_trace (List.replicate 6 c0)
      ([c1, c2, c3, c4, c5, c5, c5, c5] ++ [c6]) htrace hlength hkept ?_ ?_
    · intro u hu
      rcases List.mem_append.mp hu with hu | hu
      · exact hlater u hu
      · exact List.mem_singleton.mp hu ▸ .inl hunrecorded
    · show Finished runtime attempt.change contents.database 15 (.ok _) c6.current
      rw [hrolledBack]
      exact finished_rolledBack hchange hv2 hleftover (fun h => hfirst (hledger.mp h)) _

/-- One attempt: it is atomic if and only if it is undisturbed, and an undisturbed one
leaves a sandbox. -/
theorem ChangeAttempt.atomic_iff (runtime : Runtime) (attempt : ChangeAttempt)
    (contents : SandboxContents) :
    (attempt.Atomic runtime contents.database ↔ attempt.Undisturbed runtime contents.database) ∧
    (attempt.Undisturbed runtime contents.database → ∃ later : SandboxContents,
      (attempt.run runtime contents.database).2 = later.database) := by
  have hshows := contents.shows
  -- a change that goes ahead may be cut off between two states
  by_cases hproceeds : attempt.change.Proceeds runtime contents.database
  · have hleft : Left runtime attempt contents := by
      cases hchange : attempt.change with
      | migrate key expected => exact left_of_migrate hchange hproceeds
      | rollback key => exact left_of_rollback hchange hproceeds
    cases hleft with
    | kept hearly hsame =>
        exact ⟨iff_of_true (atomic_of_same hshows hsame) fun _ => .inl hearly,
          fun _ => ⟨contents, hsame⟩⟩
    -- cut off in between: neither the contents before nor those after
    | torn hlate hdisturbed htorn =>
        have hundisturbed : ¬ attempt.Undisturbed runtime contents.database := by
          intro hundisturbed
          rcases hundisturbed hproceeds with hearly | ⟨hend, hfirst⟩
          · omega
          · rcases hdisturbed with hbefore | hrecorded
            · omega
            · exact hfirst hrecorded
        exact ⟨iff_of_false (not_atomic_of_torn htorn) hundisturbed, fun h => absurd h hundisturbed⟩
    -- carried through
    | completed result later hlate hfirst hrun hcomplete hkey hcolumns =>
        have hdatabase : (attempt.run runtime contents.database).2 = later.database :=
          congrArg Prod.snd hrun
        have hatomic : attempt.Atomic runtime contents.database := {
          before_or_after := .inr ⟨result, hcomplete.trans (by rw [hrun])⟩
          before_of_raised := by
            intro e hraised
            rw [hrun] at hraised
            cases hraised
          versionMatches := hdatabase ▸ later.shows.versionMatches
          recorded := by
            rw [hdatabase]
            exact iff_of_true hkey (.inr hcolumns) }
        exact ⟨iff_of_true hatomic fun _ => .inr ⟨hlate, hfirst⟩, fun _ => ⟨later, hdatabase⟩⟩
  -- a change that is refused leaves everything alone
  · have hidle : Idle runtime attempt.change contents.database := by
      cases hchange : attempt.change with
      | migrate key expected =>
          rw [hchange] at hproceeds
          exact hshows.idle_migrate hproceeds
      | rollback key =>
          rw [hchange] at hproceeds
          exact hshows.idle_rollback hproceeds
    have hatomic : attempt.Atomic runtime contents.database :=
      atomic_of_same hshows hidle.run_eq
    exact ⟨iff_of_true hatomic fun h => absurd h hproceeds, fun _ => ⟨contents, hidle.run_eq⟩⟩

/-- Every attempt of the run is undisturbed where it is made. -/
def UndisturbedRun (runtime : Runtime) : List ChangeAttempt → Sql.Database → Prop
  | [], _ => True
  | attempt :: rest, d =>
      attempt.Undisturbed runtime d ∧ UndisturbedRun runtime rest (attempt.run runtime d).2

theorem exists_contents_of_undisturbedRun : ∀ {attempts : List ChangeAttempt}
    {contents : SandboxContents}, UndisturbedRun runtime attempts contents.database →
      ∃ later : SandboxContents,
        runAttempts runtime attempts contents.database = later.database := by
  intro attempts
  induction attempts with
  | nil => exact fun _ => ⟨_, rfl⟩
  | cons attempt rest ih =>
      intro contents h
      obtain ⟨next, hnext⟩ := (attempt.atomic_iff runtime contents).2 h.1
      obtain ⟨later, hlater⟩ := ih (hnext ▸ h.2)
      refine ⟨later, ?_⟩
      rw [← hlater, ← hnext]
      rfl

end

/-- After a run in which no change is disturbed, the recorded version is the one of the
columns, and the next change, interrupted wherever it is, leaves every table as it was or
as it should be if and only if it is not disturbed either: not interrupted between its
first change of the schema and its last commit, and the first of its kind. -/
theorem schema_changes_are_atomic_iff (runtime : Runtime) (contents : SandboxContents)
    (attempts : List ChangeAttempt)
    (hrun : UndisturbedRun runtime attempts contents.database) (attempt : ChangeAttempt) :
    VersionMatches (runAttempts runtime attempts contents.database) ∧
      (attempt.Atomic runtime (runAttempts runtime attempts contents.database) ↔
        attempt.Undisturbed runtime (runAttempts runtime attempts contents.database)) := by
  obtain ⟨later, hlater⟩ := exists_contents_of_undisturbedRun hrun
  rw [hlater]
  exact ⟨later.shows.versionMatches, (attempt.atomic_iff runtime later).1⟩

/-- A new sandbox. -/
def SandboxContents.new (sandboxId : String) : SandboxContents where
  sandboxId := sandboxId
  orders := baseline
  entries := []
  effects := { columns := effectsColumns }
  leftover_v2 h := absurd h (by decide)

/-- The first migration of a sandbox, when it is not interrupted. -/
theorem ChangeAttempt.run_firstMigration {runtime : Runtime} {attempt : ChangeAttempt}
    {contents : SandboxContents} {key : String}
    (hchange : attempt.change = .migrate key (ordersFingerprint runtime contents.orders))
    (hv1 : contents.orders.version = .v1) (hentries : contents.entries = [])
    (hleftover : contents.leftover = none)
    (hrequest : attempt.change.requests ≤ attempt.request) :
    (attempt.run runtime contents.database).2 = (contents.migrated runtime key).database := by
  have hshows := contents.shows
  -- a new database has no key, is at v1 and has the expected fingerprint
  have hproceeds : attempt.change.Proceeds runtime contents.database := by
    rw [hchange]
    refine ⟨?_, ?_, hshows.fingerprint runtime⟩
    · simp [hshows.holdsKey_iff, hentries]
    · rw [hshows.schemaVersion, hv1]
  -- nor has it a migration on record
  have hfirst : ¬ HoldsMigration attempt.change.ledgerId contents.database := by
    simp [hshows.holdsMigration_iff, hentries]
  have hearlier : attempt.change.changingRequest < attempt.change.requests := by
    rw [hchange]
    show 6 < 13
    decide
  cases left_of_migrate hchange hproceeds with
  -- no request is missing
  | kept hearly hsame => omega
  | torn hlate hdisturbed htorn =>
      rcases hdisturbed with hbefore | hrecorded
      · omega
      · exact absurd hrecorded hfirst
  -- so it is the migrated database, with one entry in the ledger
  | completed result later hlate hfirst hrun hcomplete hkey hcolumns =>
      rw [hchange, SchemaChange.complete, contents.database_of_leftover_eq_none hleftover,
        hentries, migrateV1ToV2_sandboxDatabase _ _ _ _ _ hv1] at hcomplete
      rw [hrun, ← (Prod.mk.inj hcomplete).2, SandboxContents.database_of_leftover_eq_none _ rfl,
        SandboxContents.migrated, hentries]
      rfl

/-- The migration of a new sandbox. -/
def firstMigration : ChangeAttempt :=
  ⟨.migrate "first" (ordersFingerprint Sample.canonicalRuntime baseline), .stops, 13⟩

/-- A rollback that is cut off. -/
def cutOffRollback (request : ℕ) : ChangeAttempt := ⟨.rollback "second", .stops, request⟩

theorem schema_changes_are_atomic_iff_new :
    (schemaVersion (runAttempts Sample.canonicalRuntime [firstMigration]
      (SandboxContents.new "sandbox").database)).1 = .ok .v2 ∧
    (cutOffRollback 5).Atomic Sample.canonicalRuntime (runAttempts Sample.canonicalRuntime
      [firstMigration] (SandboxContents.new "sandbox").database) ∧
    ¬ (cutOffRollback 7).Atomic Sample.canonicalRuntime (runAttempts Sample.canonicalRuntime
      [firstMigration] (SandboxContents.new "sandbox").database) := by
  have hmigrated : runAttempts Sample.canonicalRuntime [firstMigration]
      (SandboxContents.new "sandbox").database =
        ((SandboxContents.new "sandbox").migrated Sample.canonicalRuntime "first").database :=
    ChangeAttempt.run_firstMigration rfl rfl rfl rfl le_rfl
  have hshows := ((SandboxContents.new "sandbox").migrated Sample.canonicalRuntime "first").shows
  -- the first migration is nobody's second
  have hrun : UndisturbedRun Sample.canonicalRuntime [firstMigration]
      (SandboxContents.new "sandbox").database := by
    refine ⟨fun _ => .inr ⟨le_rfl, ?_⟩, trivial⟩
    rw [(SandboxContents.new "sandbox").shows.holdsMigration_iff]
    exact fun ⟨_, hentry, _⟩ => List.not_mem_nil hentry
  have hatomic (request : ℕ) := (schema_changes_are_atomic_iff Sample.canonicalRuntime
    (SandboxContents.new "sandbox") [firstMigration] hrun (cutOffRollback request)).2
  refine ⟨?_, (hatomic 5).mpr fun _ => .inl le_rfl, fun h => ?_⟩
  · rw [hmigrated]
    exact hshows.schemaVersion
  · -- all orders of a new sandbox are of the standard priority when it is migrated
    have hproceeds : (cutOffRollback 7).change.Proceeds Sample.canonicalRuntime
        (runAttempts Sample.canonicalRuntime [firstMigration]
          (SandboxContents.new "sandbox").database) := by
      rw [hmigrated]
      obtain ⟨nonstandard, hselect, hstandard⟩ := hshows.reads_nonstandard rfl
      refine ⟨?_, hshows.schemaVersion, ?_, rfl⟩
      · rw [hshows.holdsKey_iff]
        decide
      · rw [hselect, hstandard.mpr (by unfold AllStandard; decide)]
    -- request 7 is neither before the first change nor the last one
    rcases (hatomic 7).mp h hproceeds with hearly | ⟨hlate, _⟩
    · exact absurd hearly (by decide)
    · exact absurd hlate (by decide)

end ChangePilot
