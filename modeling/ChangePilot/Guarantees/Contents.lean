import ChangePilot.Guarantees.Migration
import ChangePilot.Sandbox.Tools

/-!
# What statements make of a sandbox database

A sandbox database holds the recorded version, the orders, and the copy of them that a
rollback has made.  Statements are cut off between one another, so the three need not fit
together: the version may be that of other columns, and the orders may be gone while their
copy is there.
-/

namespace ChangePilot

open Sql SQLiteSandboxDatabase

/-- What is in a sandbox database. -/
structure DatabaseContents where
  sandboxId : String
  version : SchemaVersion
  orders : Option Orders
  copy : Option Orders

/-- The database holds the contents. -/
structure HoldsContents (d : Sql.Database) (contents : DatabaseContents) : Prop where
  metadata : d "sandbox_metadata" = some (metadataTable contents.sandboxId contents.version)
  orders : d "orders" = contents.orders.map ordersTable
  copy : d "orders_v1" = contents.copy.map ordersTable
  ledger : ∃ entries, d "migration_ledger" = some (ledgerTable entries)

/-- A copy without any orders. -/
def Orders.empty : Orders where
  version := .v1
  records := []
  ids_nodup := List.nodup_nil
  priority_isSome := List.forall_mem_nil _

namespace HoldsContents

variable {d next : Sql.Database} {contents : DatabaseContents}

theorem of_same {d' : Sql.Database} (h : HoldsContents d contents)
    (hsame : ∀ name ∈ ["sandbox_metadata", "orders", "orders_v1", "migration_ledger"],
      d' name = d name) : HoldsContents d' contents where
  metadata := (hsame _ (by simp)).trans h.metadata
  orders := (hsame _ (by simp)).trans h.orders
  copy := (hsame _ (by simp)).trans h.copy
  ledger := by
    rw [hsame _ (by simp)]
    exact h.ledger

theorem set_metadata (h : HoldsContents d contents) (version : SchemaVersion) :
    HoldsContents (d.set "sandbox_metadata" (some (metadataTable contents.sandboxId version)))
      { contents with version := version } :=
  ⟨by simp, by simp [h.orders], by simp [h.copy], by simp [h.ledger]⟩

theorem set_orders (h : HoldsContents d contents) (orders : Option Orders) :
    HoldsContents (d.set "orders" (orders.map ordersTable)) { contents with orders := orders } :=
  ⟨by simp [h.metadata], by simp, by simp [h.copy], by simp [h.ledger]⟩

theorem set_copy (h : HoldsContents d contents) (copy : Option Orders) :
    HoldsContents (d.set "orders_v1" (copy.map ordersTable)) { contents with copy := copy } :=
  ⟨by simp [h.metadata], by simp [h.orders], by simp, by simp [h.ledger]⟩

theorem set_ledger (h : HoldsContents d contents) (entries : List LedgerEntry) :
    HoldsContents (d.set "migration_ledger" (some (ledgerTable entries))) contents :=
  ⟨by simp [h.metadata], by simp [h.orders], by simp [h.copy], entries, by simp⟩

/-! ## Statements -/

/-- The column of the priority is added to orders that have none. -/
theorem addPriority (h : HoldsContents d contents)
    (hrun : d.run (.addColumn "orders" priorityColumn) = .ok next) :
    ∃ orders, contents.orders = some orders ∧ orders.version = .v1 ∧
      HoldsContents next { contents with orders := some (orders.withPriority (some "standard")) } := by
  cases horders : contents.orders with
  | none =>
      have hmissing : d "orders" = none := by rw [h.orders, horders]; rfl
      rw [Database.run, Database.table, hmissing] at hrun
      cases hrun
  | some orders =>
      have htable : d "orders" = some (ordersTable orders) := by rw [h.orders, horders]; rfl
      cases hversion : orders.version with
      | v2 =>
          have hknown : priorityColumn.name ∈ (ordersTable orders).names := by
            rw [names_ordersTable, hversion]
            decide
          rw [Database.run, Database.table_of_eq_some htable] at hrun
          change (if priorityColumn.name ∈ (ordersTable orders).names then _ else _) = _ at hrun
          rw [if_pos hknown] at hrun
          cases hrun
      | v1 =>
          have hsame := Database.run_of_same "orders" rfl htable
            (by simp [Statement.source]) (run_addPriority orders ⟨[], []⟩ ⟨[], []⟩ ⟨[], []⟩ hversion)
          obtain rfl := Except.ok.inj (hrun.symm.trans hsame)
          exact ⟨orders, rfl, hversion, h.set_orders (some (orders.withPriority (some "standard")))⟩

theorem updateVersion (h : HoldsContents d contents) (version : SchemaVersion)
    (hrun : d.run (updateVersion version.value) = .ok next) :
    HoldsContents next { contents with version := version } := by
  have hsame := Database.run_of_same "sandbox_metadata" rfl h.metadata
    (by simp [SQLiteSandboxDatabase.updateVersion, Statement.source])
    (run_updateVersion contents.sandboxId ⟨[], []⟩ ⟨[], []⟩ ⟨[], []⟩ contents.version version)
  obtain rfl := Except.ok.inj (hrun.symm.trans hsame)
  exact h.set_metadata version

theorem insertLedger (h : HoldsContents d contents) (entry : LedgerEntry)
    (hrun : d.run (insertLedger entry.migrationId entry.fromVersion.value entry.toVersion.value
      entry.idempotencyKey entry.databaseFingerprint) = .ok next) : HoldsContents next contents := by
  obtain ⟨entries, hledger⟩ := h.ledger
  rw [SQLiteSandboxDatabase.insertLedger,
    Database.run_insert_eq_ok_iff hledger (by simp [names_ledgerTable])] at hrun
  obtain ⟨_, _, rfl⟩ := hrun
  have hrows : (ledgerTable (entries ++ [entry])).rows =
      (ledgerTable entries).rows ++ [entry.row] := List.map_append ..
  exact hrows ▸ h.set_ledger (entries ++ [entry])

theorem createCopy (h : HoldsContents d contents)
    (hrun : d.run (.createTable "orders_v1" ordersColumns) = .ok next) :
    contents.copy = none ∧ HoldsContents next { contents with copy := some .empty } := by
  cases hcopy : contents.copy with
  | some copy =>
      rw [Database.run, h.copy, hcopy] at hrun
      cases hrun
  | none =>
      have hvacant : d "orders_v1" = none := by rw [h.copy, hcopy]; rfl
      rw [Database.run_createTable _ hvacant] at hrun
      obtain rfl := Except.ok.inj hrun
      exact ⟨rfl, h.set_copy (some .empty)⟩

/-- The orders are copied without their priorities. -/
theorem copyOrders (h : HoldsContents d contents) (hcopy : contents.copy = some .empty)
    (hrun : d.run (.insertSelect "orders_v1" ["order_id", "customer", "total_cents"]
      "orders" ["order_id", "customer", "total_cents"]) = .ok next) :
    ∃ orders, contents.orders = some orders ∧
      HoldsContents next { contents with copy := some (orders.withPriority none) } := by
  have hempty : d "orders_v1" = some { columns := ordersColumns } := by rw [h.copy, hcopy]; rfl
  cases hcontents : d "orders" with
  | none =>
      rw [Database.run, Except.bind_of_eq_ok (Database.table_of_eq_some hempty), Database.table,
        hcontents] at hrun
      cases hrun
  | some table =>
      obtain ⟨orders, horders, htable⟩ := Option.map_eq_some_iff.mp (h.orders.symm.trans hcontents)
      have htable : d "orders" = some (ordersTable orders) := htable ▸ hcontents
      have hcopied : ((tables ⟨[], []⟩ (ordersTable orders) ⟨[], []⟩ ⟨[], []⟩).set "orders_v1"
          (some { columns := ordersColumns })).run (.insertSelect "orders_v1"
            ["order_id", "customer", "total_cents"] "orders"
            ["order_id", "customer", "total_cents"]) = _ := run_copyOrders orders
      have hsource : ∀ source ∈ Statement.source (.insertSelect "orders_v1"
          ["order_id", "customer", "total_cents"] "orders" ["order_id", "customer", "total_cents"]),
          d source = ((tables ⟨[], []⟩ (ordersTable orders) ⟨[], []⟩ ⟨[], []⟩).set "orders_v1"
            (some { columns := ordersColumns })) source := by
        rintro source ⟨⟩
        rw [htable, Database.set_of_ne _ _ (by decide)]
        rfl
      have hsame := Database.run_of_same "orders_v1" rfl
        (hempty.trans (Database.set_self ..).symm) hsource hcopied
      obtain rfl := Except.ok.inj (hrun.symm.trans hsame)
      rw [Database.set_self]
      exact ⟨orders, horders, h.set_copy (some (orders.withPriority none))⟩

theorem dropOrders (h : HoldsContents d contents) (hrun : d.run (.dropTable "orders") = .ok next) :
    HoldsContents next { contents with orders := none } := by
  rw [Database.run] at hrun
  obtain ⟨_, _, hnext⟩ := Except.bind_eq_ok_iff.mp hrun
  obtain rfl := Except.ok.inj hnext
  exact h.set_orders none

/-- The copy takes the place of the orders. -/
theorem renameCopy (h : HoldsContents d contents) {copy : Orders} (hcopy : contents.copy = some copy)
    (hrun : d.run (.renameTable "orders_v1" "orders") = .ok next) :
    HoldsContents next { contents with orders := some copy, copy := none } := by
  have htable : d "orders_v1" = some (ordersTable copy) := by rw [h.copy, hcopy]; rfl
  cases horders : d "orders" with
  | some table =>
      rw [Database.run, Except.bind_of_eq_ok (Database.table_of_eq_some htable), horders] at hrun
      cases hrun
  | none =>
      rw [Database.run_renameTable htable horders] at hrun
      obtain rfl := Except.ok.inj hrun
      exact (h.set_copy none).set_orders (some copy)

/-- Without a priority of its own, an order is inserted into the columns of the second
version in the same way by the statements of both versions. -/
theorem run_insertStatement_v2 {orders : Orders} (htable : d "orders" = some (ordersTable orders))
    (hversion : orders.version = .v2) {order : OrderRecord} (hpriority : order.priority = none)
    (hrun : d.run (insertStatement .v1 order) = .ok next) :
    d.run (insertStatement orders.version order) = .ok next := by
  have hnames : ∀ value ∈ (stored .v1 order).row, value.1 ∈ (ordersTable orders).names := by
    rw [names_ordersTable, hversion]
    simp [stored, OrderRecord.row, orderColumns]
  have hrow : (ordersTable orders).rowOf (stored .v1 order).row =
      (ordersTable orders).rowOf (stored orders.version order).row := by
    have hstored : stored .v2 order = { order with priority := some "standard" } := by
      simp [stored, priorityOf, hpriority]
    rw [rowOf_stored, ordersTable, hversion, hstored]
    rfl
  rw [insertStatement_eq, Database.run_insert_eq_ok_iff htable hnames, hrow] at hrun
  rw [insertStatement_eq,
    Database.run_insert_eq_ok_iff htable (mem_names_of_mem_stored orders order)]
  refine ⟨fun value hvalue => ?_, hrun.2⟩
  rw [hversion] at hvalue
  rcases List.mem_append.mp hvalue with hvalue | hvalue
  · exact hrun.1 value (List.mem_append_left _ hvalue)
  · obtain ⟨priority, _, rfl⟩ := List.mem_map.mp hvalue
    rfl

/-- There is no column for the priority in the first version. -/
theorem version_of_run_insert {orders : Orders} (htable : d "orders" = some (ordersTable orders))
    {order : OrderRecord} (hrun : d.run (insertStatement .v2 order) = .ok next) :
    orders.version = .v2 := by
  rw [insertStatement_eq, Database.run,
    Except.bind_of_eq_ok (Database.table_of_eq_some htable)] at hrun
  obtain ⟨hcolumns, _⟩ := Except.bind_unit_eq_ok_iff.mp hrun
  rw [Database.checkColumns, Except.forM_eq_ok_iff] at hcolumns
  have hpriority := hcolumns "priority" (by simp [stored, OrderRecord.row])
  rw [names_ordersTable] at hpriority
  cases hversion : orders.version with
  | v2 => rfl
  | v1 =>
      rw [hversion] at hpriority
      exact absurd hpriority (by simp [orderColumns])

/-- An order that is inserted by a statement of the first version has the standard priority
in the columns of the second. -/
theorem insertOrder (h : HoldsContents d contents) {version : SchemaVersion} {order : OrderRecord}
    (hpriority : version = .v1 → order.priority = none)
    (hrun : d.run (insertStatement version order) = .ok next) :
    ∃ orders added : Orders, contents.orders = some orders ∧ added.version = orders.version ∧
      added.records = orders.records ++ [stored orders.version order] ∧
      HoldsContents next { contents with orders := some added } := by
  have htarget : (insertStatement version order).target = some "orders" := by
    rw [insertStatement_eq]
    rfl
  have hnext := Database.next_eq_set htarget hrun
  cases horders : contents.orders with
  | none =>
      have hmissing : d "orders" = none := by rw [h.orders, horders]; rfl
      rw [insertStatement_eq, Database.run, Database.table, hmissing] at hrun
      cases hrun
  | some orders =>
      have htable : d "orders" = some (ordersTable orders) := by rw [h.orders, horders]; rfl
      have hrun : d.run (insertStatement orders.version order) = .ok next := by
        cases version with
        | v2 => rwa [version_of_run_insert htable hrun]
        | v1 =>
            cases hversion : orders.version with
            | v1 => exact hrun
            | v2 => exact hversion ▸ run_insertStatement_v2 htable hversion (hpriority rfl) hrun
      have hinserted := Database.run_of_same "orders"
        (d := sandboxDatabase contents.sandboxId orders [] ⟨[], []⟩)
        (by rw [insertStatement_eq]; rfl) htable.symm (by simp [insertStatement_eq, Statement.source])
        hrun
      obtain ⟨added, hversion, hrecords, htables⟩ := run_insertStatement _ _ _ _ hinserted
      have horders := congrFun htables "orders"
      rw [Database.set_self] at horders
      rw [hnext, horders]
      exact ⟨orders, added, rfl, hversion, hrecords, h.set_orders (some added)⟩

end HoldsContents

end ChangePilot
