import ChangePilot.Guarantees.Undisturbed

/-!
# Deployments in a sandbox

The tools of a sandbox are executed one after the other, and orders are created in between.
Wherever one of them fails or the process dies, no accepted order is lost, and a service of
the second version is never left on a database that it cannot read.

`Served` is the invariant of the database: its contents keep every accepted order, in the
table of the orders or in its copy, and serve the service that runs.  A program is
`Assured` of it if it holds at each state in which the program can be cut off, so that
each lemma follows the statements of its program and names the contents after each of them.
-/

namespace ChangePilot

open Sql SQLiteSandboxDatabase

/-! ## What is kept -/

/-- The record is that of the order; a standard priority need not be recorded. -/
structure OrderRecord.KeptAs (order record : OrderRecord) : Prop where
  orderId : record.orderId = order.orderId
  customer : record.customer = order.customer
  totalCents : record.totalCents = order.totalCents
  priority : priorityOf order ≠ "standard" → record.priority = some (priorityOf order)

def Orders.Keep (orders : Orders) (accepted : List OrderRecord) : Prop :=
  ∀ order ∈ accepted, ∃ record ∈ orders.records, order.KeptAs record

namespace Orders

variable {orders : Orders} {accepted : List OrderRecord}

theorem keptAs_of_stored {version : SchemaVersion} {order : OrderRecord}
    (hpriority : version = .v1 → order.priority = none) : order.KeptAs (stored version order) := by
  refine ⟨rfl, rfl, rfl, fun hother => ?_⟩
  cases version with
  | v2 => rfl
  | v1 => exact absurd (by simp [priorityOf, hpriority rfl]) hother

/-- Whatever is done to standard priorities, the orders are kept. -/
theorem Keep.withPriority (h : orders.Keep accepted) (priority : Option String)
    (hstandard : ∀ record ∈ orders.records, record.priority = none ∨
      record.priority = some "standard") : (orders.withPriority priority).Keep accepted := by
  intro order horder
  obtain ⟨record, hrecord, hkept⟩ := h order horder
  refine ⟨_, List.mem_map_of_mem hrecord, hkept.orderId, hkept.customer, hkept.totalCents, ?_⟩
  intro hother
  have hpriority := hkept.priority hother
  rcases hstandard record hrecord with hnone | hsome
  · rw [hnone] at hpriority
    cases hpriority
  · rw [hsome] at hpriority
    exact absurd (Option.some.inj hpriority).symm hother

theorem Keep.append (h : orders.Keep accepted) {added : Orders} {order record : OrderRecord}
    (hrecords : added.records = orders.records ++ [record]) (hkept : order.KeptAs record) :
    added.Keep (accepted ++ [order]) := by
  intro other hother
  rw [hrecords]
  rcases List.mem_append.mp hother with hother | hother
  · obtain ⟨found, hfound, hkept⟩ := h other hother
    exact ⟨found, List.mem_append_left _ hfound, hkept⟩
  · rw [List.mem_singleton.mp hother]
    exact ⟨record, List.mem_append_right _ List.mem_cons_self, hkept⟩

end Orders

/-- The orders are there, in their table or in the copy that is to take its place; and what
a service of the second version needs is there. -/
structure DatabaseContents.Serves (contents : DatabaseContents) (service : ServiceVersion)
    (accepted : List OrderRecord) : Prop where
  kept : ∃ orders : Orders, (contents.orders = some orders ∨
    contents.orders = none ∧ contents.copy = some orders) ∧ orders.Keep accepted
  served : service = .v2 → contents.version = .v2 ∧
    ∃ orders, contents.orders = some orders ∧ orders.version = .v2

/-- The database of a sandbox, wherever it was left. -/
def Served (sandboxId : String) (service : ServiceVersion) (accepted : List OrderRecord)
    (d : Sql.Database) : Prop :=
  ∃ contents, HoldsContents d contents ∧ contents.sandboxId = sandboxId ∧ contents.Serves service accepted

namespace DatabaseContents.Serves

variable {contents : DatabaseContents} {accepted : List OrderRecord}

/-- The new column is added, or its version is recorded, under a service of the first version. -/
theorem of_orders {orders : Orders}
    (hkeep : orders.Keep accepted) (version : SchemaVersion) (copy : Option Orders) :
    Serves { contents with version := version, orders := some orders, copy := copy } .v1
      accepted where
  kept := ⟨orders, .inl rfl, hkeep⟩
  served h := absurd h (by decide)

end DatabaseContents.Serves

/-! ## Scripts -/

section

open Script

variable {runtime : Runtime} {sandboxId : String} {service : ServiceVersion}
  {accepted : List OrderRecord} {d : Sql.Database}

theorem assured_schemaVersionIn {I : Sql.Database → Prop} {c : Connection}
    {contents : DatabaseContents} {Q : SchemaVersion → Connection → Prop}
    (hholds : HoldsContents c.current contents) (hI : I c.committed) (hQ : Q contents.version c) :
    Script.Assured I Q Scripts.schemaVersionIn c := by
  have hselect : c.current.select "sandbox_metadata" ["value"]
      (.eq "key" (.text "schema_version")) none = .ok [[.text contents.version.value]] := by
    have hsame : c.current "sandbox_metadata" =
        tables (metadataTable contents.sandboxId contents.version) ⟨[], []⟩ ⟨[], []⟩ ⟨[], []⟩
          "sandbox_metadata" := hholds.metadata.trans tables_metadata.symm
    rw [Database.select_congr hsame, select_schemaVersion]
  refine assured_bind.mpr (assured_select hI fun found hfound => ?_)
  obtain rfl := Except.ok.inj (hselect.symm.trans hfound)
  revert hQ
  cases contents.version with
  | v1 => exact id
  | v2 => exact id

/-- Orders of the first version have no priorities. -/
theorem Orders.priority_eq_none {orders : Orders} (hversion : orders.version = .v1) :
    ∀ record ∈ orders.records, record.priority = none ∨ record.priority = some "standard" := by
  intro record hrecord
  have hsome := orders.priority_isSome record hrecord
  rw [hversion] at hsome
  exact .inl (by simpa using hsome)

theorem DatabaseContents.Serves.keep {contents : DatabaseContents}
    (h : contents.Serves service accepted) {orders : Orders}
    (horders : contents.orders = some orders) : orders.Keep accepted := by
  obtain ⟨kept, hkept | ⟨hnone, _⟩, hkeep⟩ := h.kept
  · obtain rfl := Option.some.inj (hkept.symm.trans horders)
    exact hkeep
  · rw [hnone] at horders
    cases horders

/-- A migration adds its column under a service of the first version. -/
theorem assured_migrate (h : Served sandboxId service accepted d) (key expected : String) :
    Script.Assured (Served sandboxId service accepted)
      (fun _ c => Served sandboxId service accepted c.committed)
      (connected (Scripts.migrateV1ToV2 runtime key expected)) { committed := d } := by
  obtain ⟨contents, hholds, hid, hserves⟩ := h
  have hI : Served sandboxId service accepted d := ⟨contents, hholds, hid, hserves⟩
  refine assured_connected hI (assured_bind.mpr ?_)
  refine looks_migrationByKey key _ _ _ hI fun existing => ?_
  -- a known key changes nothing
  cases existing with
  | some existing => exact looks_appliedMigration _ _ _ _ _ hI fun _ => ⟨hI, hI⟩
  | none =>
      refine assured_bind.mpr (assured_schemaVersionIn hholds hI ?_)
      dsimp only
      split
      · exact assured_bind.mpr hI
      · rename_i hv1
        -- a service at v2 is not on a database at v1
        have hservice : service = .v1 := by
          cases service with
          | v1 => rfl
          | v2 => exact absurd (hserves.served rfl).1 (by simp [not_not.mp hv1])
        subst hservice
        refine assured_bind.mpr (looks_fingerprintIn _ _ _ hI fun actual => ?_)
        split
        · exact assured_bind.mpr hI
        -- from here on the column is there, whatever happens next
        · refine assured_bind.mpr (assured_execute_schema id hI fun altered hrun => ?_)
          obtain ⟨orders, horders, hversion, haltered⟩ := hholds.addPriority hrun
          have hkeep := (hserves.keep horders).withPriority (some "standard")
            (Orders.priority_eq_none hversion)
          have hI : Served sandboxId .v1 accepted altered :=
            ⟨_, haltered, hid, .of_orders hkeep _ _⟩
          -- version and ledger are committed together
          refine assured_bind.mpr (assured_execute_rows trivial hI fun updated hrun => ?_)
          have hupdated := haltered.updateVersion .v2 hrun
          refine assured_bind.mpr (looks_fingerprintIn _ _ _ hI fun final => ?_)
          refine assured_bind.mpr (assured_execute_rows trivial hI fun recorded hrun => ?_)
          have hrecorded := hupdated.insertLedger ⟨migrationId, .v1, .v2, key, final⟩ hrun
          exact ⟨hI, _, hrecorded, hid, .of_orders hkeep _ _⟩

/-- When no other priority is found, there is none. -/
theorem standard_of_select {contents : DatabaseContents} (hholds : HoldsContents d contents)
    {found : List (List Sql.Value)} (hfound : found = [])
    (hselect : d.select "orders" [] (.ne "priority" (.text "standard")) none = .ok found)
    {orders : Orders} (horders : contents.orders = some orders) :
    ∀ record ∈ orders.records, record.priority = none ∨ record.priority = some "standard" := by
  cases hversion : orders.version with
  | v1 => exact Orders.priority_eq_none hversion
  | v2 =>
      obtain ⟨nonstandard, hread, hlost⟩ := select_nonstandard orders ⟨[], []⟩ ⟨[], []⟩ ⟨[], []⟩
        hversion
      have htable : d "orders" = some (ordersTable orders) := by rw [hholds.orders, horders]; rfl
      rw [Database.select_congr (htable.trans tables_orders.symm), hread] at hselect
      obtain rfl := (Except.ok.inj hselect).trans hfound
      have hall : AllStandard orders := by
        by_contra hnot
        exact absurd (hlost.mpr hnot) (Nat.lt_irrefl _)
      exact fun record hrecord => .inr (hall record hrecord)

/-- A rollback has its copy of the orders before it drops them, and it drops them when only
standard priorities are lost. -/
theorem assured_rollback (h : Served sandboxId .v1 accepted d) (key : String) :
    Script.Assured (Served sandboxId .v1 accepted)
      (fun _ c => Served sandboxId .v1 accepted c.committed)
      (connected (Scripts.rollbackV2ToV1 runtime key)) { committed := d } := by
  obtain ⟨contents, hholds, hid, hserves⟩ := h
  have hI : Served sandboxId .v1 accepted d := ⟨contents, hholds, hid, hserves⟩
  refine assured_connected hI (assured_bind.mpr ?_)
  refine looks_migrationByKey key _ _ _ hI fun existing => ?_
  cases existing with
  | some existing => exact looks_appliedMigration _ _ _ _ _ hI fun _ => ⟨hI, hI⟩
  | none =>
      refine assured_bind.mpr (assured_schemaVersionIn hholds hI ?_)
      split
      · exact assured_bind.mpr hI
      · refine assured_bind.mpr (assured_select hI fun nonstandard hselect => ?_)
        split
        · exact assured_bind.mpr hI
        · rename_i hlength
          -- no order has a priority of its own to lose
          have hnone : nonstandard = [] := by
            rwa [List.length_pos_iff, not_not] at hlength
          refine assured_bind.mpr (assured_bind.mpr (assured_commit hI ?_))
          refine assured_forM_cons hI fun created hrun => ?_
          -- the copy is new, so the orders are in their table
          obtain ⟨hvacant, hcreated⟩ := hholds.createCopy hrun
          obtain ⟨orders, horders⟩ : ∃ orders, contents.orders = some orders := by
            obtain ⟨orders, horders | ⟨_, hcopy⟩, _⟩ := hserves.kept
            · exact ⟨orders, horders⟩
            · rw [hvacant] at hcopy
              cases hcopy
          have hkeep := hserves.keep horders
          have hcopied := hkeep.withPriority none (standard_of_select hholds hnone hselect horders)
          have hserves {version : SchemaVersion} {copy : Option Orders} : DatabaseContents.Serves
              { contents with version := version, copy := copy } .v1 accepted :=
            ⟨⟨orders, .inl horders, hkeep⟩, fun h => absurd h (by decide)⟩
          -- each statement commits by itself, and the orders are kept after each of them
          refine assured_forM_cons ⟨_, hcreated, hid, hserves⟩ fun copied hrun => ?_
          obtain ⟨_, hsame, hheld⟩ := hcreated.copyOrders rfl hrun
          obtain rfl := Option.some.inj (hsame.symm.trans horders)
          -- the copy holds the orders, so the table can go
          refine assured_forM_cons ⟨_, hheld, hid, hserves⟩ fun dropped hrun => ?_
          have hdropped := hheld.dropOrders hrun
          refine assured_forM_cons ⟨_, hdropped, hid, ⟨_, .inr ⟨rfl, rfl⟩, hcopied⟩,
            fun h => absurd h (by decide)⟩
            fun renamed hrun => ?_
          have hrenamed := hdropped.renameCopy rfl hrun
          refine assured_forM_cons ⟨_, hrenamed, hid, .of_orders hcopied _ _⟩
            fun updated hrun => assured_forM_nil ?_
          have hupdated := hrenamed.updateVersion .v1 hrun
          have hI : Served sandboxId .v1 accepted updated :=
            ⟨_, hupdated, hid, .of_orders hcopied _ _⟩
          -- version and columns agree again
          refine assured_bind.mpr (looks_fingerprintIn _ _ _ hI fun final => ?_)
          refine assured_bind.mpr (assured_execute_rows trivial hI fun recorded hrun => ?_)
          have hrecorded := hupdated.insertLedger ⟨rollbackId, .v2, .v1, key, final⟩ hrun
          exact ⟨hI, _, hrecorded, hid, .of_orders hcopied _ _⟩

/-- An insertion that is committed adds its order to what is kept. -/
theorem assured_insertOrder (h : Served sandboxId service accepted d) (version : SchemaVersion)
    (order : OrderRecord) :
    Script.Assured (Served sandboxId service accepted)
      (fun _ c => Served sandboxId service (accepted ++ [order]) c.committed)
      (connected (Scripts.insertOrder version order)) { committed := d } := by
  obtain ⟨contents, hholds, hid, hserves⟩ := h
  have hI : Served sandboxId service accepted d := ⟨contents, hholds, hid, hserves⟩
  -- the statement, where the order fits the version that was read
  have hexecute (hpriority : version = .v1 → order.priority = none) :
      Script.Assured (Served sandboxId service accepted)
        (fun _ c => Served sandboxId service accepted c.committed ∧
          Served sandboxId service (accepted ++ [order]) c.current)
        (ask (.execute (insertStatement version order)) : Requests Unit) { committed := d } := by
    refine assured_execute_rows (by rw [insertStatement_eq]; trivial) hI fun next hrun => ⟨hI, ?_⟩
    obtain ⟨orders, added, horders, hversion, hrecords, hnext⟩ := hholds.insertOrder hpriority hrun
    have htable : d "orders" = some (ordersTable orders) := by rw [hholds.orders, horders]; rfl
    -- what is stored has the columns of the table, and not more
    have hkept : order.KeptAs (stored orders.version order) := by
      refine Orders.keptAs_of_stored fun hv1 => hpriority ?_
      cases version with
      | v1 => rfl
      | v2 => exact (HoldsContents.version_of_run_insert htable hrun).symm.trans hv1
    refine ⟨_, hnext, hid, ⟨added, .inl rfl, (hserves.keep horders).append hrecords hkept⟩,
      fun hservice => ⟨(hserves.served hservice).1, added, rfl, ?_⟩⟩
    -- a service at v2 still finds the priorities
    obtain ⟨_, other, hother, hv2⟩ := hserves.served hservice
    obtain rfl := Option.some.inj (hother.symm.trans horders)
    exact hversion.trans hv2
  refine assured_connected hI ?_
  cases version with
  | v2 => exact hexecute fun h => absurd h (by decide)
  | v1 =>
      unfold Scripts.insertOrder
      dsimp only
      split
      · exact assured_bind.mpr hI
      · rename_i hnone
        exact hexecute fun _ => by simpa using hnone

theorem assured_recordEffect (h : Served sandboxId service accepted d) (key name text : String) :
    Script.Assured (Served sandboxId service accepted)
      (fun _ c => Served sandboxId service accepted c.committed)
      (connected (Scripts.recordEffect key name text)) { committed := d } := by
  refine assured_connected h (assured_execute_rows trivial h fun next hrun => ⟨h, ?_⟩)
  obtain ⟨contents, hholds, hid, hserves⟩ := h
  refine ⟨contents, hholds.of_same fun other hother => ?_, hid, hserves⟩
  rw [Connection.current, Option.getD_some, Database.next_eq_set rfl hrun]
  refine Database.set_of_ne _ _ ?_
  rintro rfl
  simp at hother

/-- What can be fingerprinted can be read: the orders have the columns of the version. -/
theorem assured_fingerprintIn {I : Sql.Database → Prop} {c : Connection}
    {contents : DatabaseContents} {Q : String → Connection → Prop}
    (hholds : HoldsContents c.current contents) (hI : I c.committed)
    (hQ : (contents.version = .v2 → ∃ orders, contents.orders = some orders ∧
      orders.version = .v2) → ∀ a, Q a c) :
    Script.Assured I Q (Scripts.fingerprintIn runtime) c := by
  refine assured_bind.mpr (assured_schemaVersionIn hholds hI (assured_bind.mpr ?_))
  refine assured_tableInfo hI (assured_bind.mpr ?_)
  refine assured_select hI fun found hselect => hQ (fun hv2 => ?_) _
  rw [hv2] at hselect
  obtain ⟨t, ht, hrest⟩ := Except.bind_eq_ok_iff.mp hselect
  obtain ⟨hcolumns, _⟩ := Except.bind_unit_eq_ok_iff.mp hrest
  cases htable : c.current "orders" with
  | none =>
      rw [Database.table, htable] at ht
      cases ht
  | some table =>
      rw [Database.table_of_eq_some htable] at ht
      obtain rfl := Except.ok.inj ht
      obtain ⟨orders, horders, rfl⟩ :=
        Option.map_eq_some_iff.mp (hholds.orders.symm.trans htable)
      have hpriority := Except.forM_eq_ok_iff.mp hcolumns "priority" (by decide)
      refine ⟨orders, horders, ?_⟩
      cases hversion : orders.version with
      | v2 => rfl
      | v1 =>
          rw [names_ordersTable, hversion] at hpriority
          exact absurd hpriority (by simp [orderColumns])

theorem tells_schemaVersionIn {contents : DatabaseContents} (hholds : HoldsContents d contents) :
    Tells Scripts.schemaVersionIn d (· = contents.version) :=
  fun _ _ hI hQ => assured_schemaVersionIn hholds hI (hQ _ rfl)

theorem tells_fingerprintIn {contents : DatabaseContents} (hholds : HoldsContents d contents) :
    Tells (Scripts.fingerprintIn runtime) d fun _ => contents.version = .v2 →
      ∃ orders, contents.orders = some orders ∧ orders.version = .v2 :=
  fun _ _ hI hQ => assured_fingerprintIn hholds hI fun hread a => hQ a hread

end

/-! ## Tools -/

/-- The files of a sandbox, wherever they were left. -/
structure SandboxFiles.Serve (files : SandboxFiles) (sandboxId : String) (service : ServiceVersion)
    (accepted : List OrderRecord) : Prop where
  stateFile : files.stateFile = some ⟨sandboxId, service.value⟩
  database : ∃ d, files.database = some d ∧ Served sandboxId service accepted d

/-- A sandbox at work. -/
def Running (sandboxId : String) (accepted : List OrderRecord) (files : SandboxFiles) : Prop :=
  ∃ service, files.Serve sandboxId service accepted

section

open Sandboxed

variable {tools : SandboxTools} {sandboxId : String} {service : ServiceVersion}
  {accepted : List OrderRecord} {files : SandboxFiles}

/-- What an inspection tells of the sandbox: its versions, and that its orders can be read. -/
theorem assured_inspect {I : SandboxFiles → Prop} {Q : SandboxState → SandboxFiles → Prop}
    {d : Sql.Database} {contents : DatabaseContents}
    (hstate : files.stateFile = some ⟨sandboxId, service.value⟩) (hdatabase : files.database = some d)
    (hholds : HoldsContents d contents) (hI : I files)
    (hQ : ∀ state : SandboxState, state.serviceVersion = service →
      state.schemaVersion = contents.version → (contents.version = .v2 →
        ∃ orders, contents.orders = some orders ∧ orders.version = .v2) → Q state files) :
    Assured tools.runtime I Q (tools.inspect sandboxId) files := by
  refine assured_bind.mpr (looks_sandboxRoot _ _ _ _ _ _ hI fun root => assured_bind.mpr ?_)
  refine assured_operate (fun _ _ h => SandboxOp.noConfusion h) rfl hI ?_
  rw [hstate]
  refine assured_bind.mpr ?_
  rw [SandboxManager.serviceVersionOf, ServiceVersion.ofValue?_value]
  refine assured_pure (assured_bind.mpr ?_)
  refine looks_call (by trivial) _ _ _ _ hI fun storedId => ?_
  have hrest (path : String) : Assured tools.runtime I Q (do
      let version ← operate (.database path .schemaVersion)
      let ids ← operate (.database path .migrationIds)
      let fingerprint ← operate (.database path .fingerprint)
      return ⟨sandboxId, root, service, version, ids, fingerprint⟩) files := by
    refine assured_bind.mpr (assured_read hdatabase (tells_schemaVersionIn hholds) hI ?_)
    rintro version rfl
    refine assured_bind.mpr (looks_call (by trivial) _ _ _ _ hI fun ids => assured_bind.mpr ?_)
    exact assured_read hdatabase (tells_fingerprintIn hholds) hI fun fingerprint hread =>
      assured_pure (hQ _ rfl rfl hread)
  dsimp only
  split
  · exact assured_bind.mpr (assured_throw hI)
  · exact hrest _

/-- A call that keeps what is served keeps the sandbox running. -/
theorem SandboxFiles.Serve.assured_call (h : files.Serve sandboxId service accepted) {path : String}
    {call : DatabaseCall} {kept : List OrderRecord}
    (hcall : ∀ d, Served sandboxId service accepted d →
      Script.Assured (Served sandboxId service accepted)
        (fun _ c => Served sandboxId service kept c.committed)
        (Script.connected (call.script tools.runtime)) { committed := d }) :
    Assured tools.runtime (Running sandboxId accepted)
      (fun _ files => files.Serve sandboxId service kept) (operate (.database path call)) files := by
  obtain ⟨d, hdatabase, hserved⟩ := h.database
  refine Sandboxed.assured_call hdatabase ⟨service, h⟩ ?_
  refine Routine.Assured.mono (fun c hc => ?_) (fun _ c hc => ?_) (fun _ c hc => ?_)
    (hcall d hserved)
  · exact ⟨service, h.stateFile, c.committed, rfl, hc⟩
  · exact ⟨h.stateFile, c.committed, rfl, hc⟩
  · exact ⟨service, h.stateFile, c.committed, rfl, hc⟩

theorem assured_schemaMigrate (h : files.Serve sandboxId service accepted) (key expected : String) :
    Assured tools.runtime (Running sandboxId accepted) (fun _ => Running sandboxId accepted)
      (SandboxTools.SchemaMigrateTool.execute tools sandboxId key expected) files := by
  have hI : Running sandboxId accepted files := ⟨service, h⟩
  refine assured_bind.mpr (assured_permanently (assured_bind.mpr ?_))
  refine looks_inspect _ _ _ _ _ _ hI fun before => assured_bind.mpr ?_
  refine looks_databasePath _ _ _ _ _ _ hI fun path => assured_bind.mpr ?_
  refine Routine.Assured.mono (fun _ h => h) (fun migration next hnext => ?_) (fun _ _ h => h)
    (h.assured_call fun d hserved => assured_migrate hserved key expected)
  refine assured_bind.mpr (looks_inspect _ _ _ _ _ _ ⟨service, hnext⟩ fun after => ?_)
  exact ⟨service, hnext⟩

theorem assured_schemaRollback (h : files.Serve sandboxId service accepted) (key : String) :
    Assured tools.runtime (Running sandboxId accepted) (fun _ => Running sandboxId accepted)
      (SandboxTools.SchemaRollbackTool.execute tools sandboxId key) files := by
  have hI : Running sandboxId accepted files := ⟨service, h⟩
  obtain ⟨d, hdatabase, contents, hholds, hid, hserves⟩ := h.database
  refine assured_bind.mpr (assured_permanently (assured_bind.mpr ?_))
  refine assured_inspect h.stateFile hdatabase hholds hI fun before hservice _ _ => ?_
  split
  · exact assured_bind.mpr (assured_throw hI)
  · rename_i hv1
    obtain rfl : service = .v1 := hservice.symm.trans (not_not.mp hv1)
    refine assured_bind.mpr (looks_databasePath _ _ _ _ _ _ hI fun path => assured_bind.mpr ?_)
    refine Routine.Assured.mono (fun _ h => h) (fun migration next hnext => ?_) (fun _ _ h => h)
      (h.assured_call fun d hserved => assured_rollback hserved key)
    refine assured_bind.mpr (looks_inspect _ _ _ _ _ _ ⟨_, hnext⟩ fun after => ?_)
    exact ⟨_, hnext⟩

/-- The service is switched to the second version only when the database is in it and can be
read. -/
theorem assured_serviceVersion (h : files.Serve sandboxId service accepted)
    (tool : SandboxTools.ServiceVersionTool) (key : String) :
    Assured tools.runtime (Running sandboxId accepted) (fun _ => Running sandboxId accepted)
      (tool.execute tools sandboxId key) files := by
  have hI : Running sandboxId accepted files := ⟨service, h⟩
  obtain ⟨d, hdatabase, contents, hholds, hid, hserves⟩ := h.database
  refine assured_permanently (assured_bind.mpr ?_)
  refine looks_databasePath _ _ _ _ _ _ hI fun path => assured_bind.mpr ?_
  refine looks_call (by trivial) _ _ _ _ hI fun existing => ?_
  cases existing with
  | some existing =>
      exact assured_bind.mpr (looks_loadOutput _ _ _ _ _ _ hI fun output => hI)
  | none =>
      refine assured_bind.mpr (assured_inspect h.stateFile hdatabase hholds hI ?_)
      intro before hservice hversion hread
      split
      · exact assured_bind.mpr (assured_throw hI)
      · rename_i hready
        refine assured_bind.mpr (assured_bind.mpr ?_)
        refine looks_sandboxRoot _ _ _ _ _ _ hI fun root => assured_bind.mpr ?_
        refine looks_inspect _ _ _ _ _ _ hI fun _ => assured_bind.mpr (assured_bind.mpr ?_)
        refine assured_operate (fun _ _ h => SandboxOp.noConfusion h) rfl hI ?_
        refine assured_operate (fun _ _ h => SandboxOp.noConfusion h) rfl hI ?_
        -- the switched service is served: the schema was read before
        have hnext : SandboxFiles.Serve
            { files with stateFile := some ⟨sandboxId, tool.targetVersion.value⟩ } sandboxId
            tool.targetVersion accepted := by
          refine ⟨rfl, d, hdatabase, contents, hholds, hid, hserves.kept, fun htarget => ?_⟩
          have hv2 : contents.version = .v2 := by
            rw [← hversion]
            by_contra hother
            exact hready ⟨htarget, hother⟩
          exact ⟨hv2, hread hv2⟩
        -- recording the effect touches no orders
        refine looks_inspect _ _ _ _ _ _ ⟨_, hnext⟩ fun after => assured_bind.mpr ?_
        refine Routine.Assured.mono (fun _ h => h) (fun _ next hrecorded => ?_) (fun _ _ h => h)
          (hnext.assured_call fun d hserved => assured_recordEffect hserved _ _ _)
        exact ⟨_, hrecorded⟩

/-- Every tool keeps the sandbox running. -/
theorem assured_execute (h : Running sandboxId accepted files) (call : SandboxTools.Call) :
    Assured tools.runtime (Running sandboxId accepted) (fun _ => Running sandboxId accepted)
      (tools.execute sandboxId call) files := by
  obtain ⟨service, hserve⟩ := h
  cases call with
  | inspect => exact looks_environmentInspect _ _ _ _ _ _ ⟨service, hserve⟩ fun _ => ⟨service, hserve⟩
  | precheck => exact looks_upgradePrecheck _ _ _ _ _ _ ⟨service, hserve⟩ fun _ => ⟨service, hserve⟩
  | migrate key expected => exact assured_schemaMigrate hserve key expected
  | serviceVersion tool key => exact assured_serviceVersion hserve tool key
  | validation name smokeTest =>
      exact looks_validation _ _ _ _ _ _ _ ⟨service, hserve⟩ fun _ => ⟨service, hserve⟩
  | rollback key => exact assured_schemaRollback hserve key

/-- The faults are in a file of their own. -/
theorem assured_configure (h : Running sandboxId accepted files) (specs : List FaultSpec) :
    Assured tools.runtime (Running sandboxId accepted) (fun _ => Running sandboxId accepted)
      (SandboxTools.DeterministicFaultInjector.configure specs) files := by
  obtain ⟨service, hserve⟩ := h
  have hI : Running sandboxId accepted files := ⟨service, hserve⟩
  unfold SandboxTools.DeterministicFaultInjector.configure
  split
  · exact assured_bind.mpr (assured_throw hI)
  · exact assured_operate (fun _ _ h => SandboxOp.noConfusion h) rfl hI
      ⟨service, hserve.stateFile, hserve.database⟩

/-- The faults that are injected fail a tool before it has done anything, or after all. -/
theorem assured_injectFaults {inner : Sandboxed SandboxResult}
    (hinner : ∀ files, Running sandboxId accepted files → Assured tools.runtime
      (Running sandboxId accepted) (fun _ => Running sandboxId accepted) inner files)
    (h : Running sandboxId accepted files) (name : String) :
    Assured tools.runtime (Running sandboxId accepted) (fun _ => Running sandboxId accepted)
      (SandboxTools.injectFaults name inner) files := by
  refine assured_bind.mpr (assured_bind.mpr ?_)
  refine assured_operate (fun _ _ h => SandboxOp.noConfusion h) rfl h (assured_bind.mpr ?_)
  refine assured_operate (fun _ _ h => SandboxOp.noConfusion h) rfl h ?_
  obtain ⟨service, hserve⟩ := h
  have hnext {faults : FaultConfiguration} :
      Running sandboxId accepted { files with faults := faults } :=
    ⟨service, hserve.stateFile, hserve.database⟩
  refine assured_pure ?_
  dsimp only
  split
  · exact assured_bind.mpr (assured_throw hnext)
  · split
    · exact assured_bind.mpr (assured_throw hnext)
    · refine assured_bind.mpr (Routine.Assured.mono (fun _ h => h) (fun result next hkept => ?_)
        (fun _ _ h => h) (hinner _ hnext))
      split
      · exact assured_bind.mpr (assured_throw hkept)
      · exact assured_pure hkept

/-- An order that the service has accepted is kept from then on. -/
theorem assured_createOrder (h : Running sandboxId accepted files) (order : OrderRecord) :
    Assured tools.runtime (Running sandboxId accepted)
      (fun _ => Running sandboxId (accepted ++ [order])) (tools.createOrder sandboxId order)
      files := by
  obtain ⟨service, hserve⟩ := h
  have hI : Running sandboxId accepted files := ⟨service, hserve⟩
  have hinsert : Assured tools.runtime (Running sandboxId accepted)
      (fun _ => Running sandboxId (accepted ++ [order])) (do
        SandboxTools.insertOrder (← tools.databasePath sandboxId) order
        return order) files := by
    refine assured_bind.mpr (looks_databasePath _ _ _ _ _ _ hI fun path => ?_)
    refine assured_bind.mpr (assured_bind.mpr (looks_call (by trivial) _ _ _ _ hI fun version => ?_))
    refine Routine.Assured.mono (fun _ h => h) (fun _ next hnext => ?_) (fun _ _ h => h)
      (hserve.assured_call fun d hserved => assured_insertOrder hserved version order)
    exact ⟨service, hnext⟩
  refine assured_bind.mpr (looks_inspect _ _ _ _ _ _ hI fun state => ?_)
  split
  · exact assured_bind.mpr (assured_throw hI)
  · refine assured_bind.mpr (looks_health _ _ _ _ _ _ hI fun health => ?_)
    split
    · exact assured_bind.mpr (assured_throw hI)
    · exact hinsert

end

end ChangePilot
