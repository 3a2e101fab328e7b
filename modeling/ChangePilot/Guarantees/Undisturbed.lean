import ChangePilot.Guarantees.Contents
import ChangePilot.Guarantees.SchemaChanges
import ChangePilot.Sandbox.Rules

/-!
# Programs of the sandbox that nobody interrupts

What the programs of a sandbox return and leave where its database can be read: the orders
are in their table, with the columns of the recorded version.

`Does` follows a program from state to state with the values that its operations answer, so
that a lemma is the chain of its calls.  What is only read is taken from `Readable`; a call
that changes the database is taken from the lemma about its transaction.
-/

namespace ChangePilot

open Sql Script SQLiteSandboxDatabase

/-! ## Reading -/

section

variable {d : Sql.Database} {sandboxId : String} {orders : Orders} {copy : Option Orders}
  {entries : List LedgerEntry}

theorem HoldsContents.shows (h : HoldsContents d ⟨sandboxId, orders.version, some orders, copy⟩) :
    ∃ entries, Shows d sandboxId orders entries := by
  obtain ⟨entries, hledger⟩ := h.ledger
  exact ⟨entries, h.metadata, h.orders, hledger⟩

theorem Shows.reads_sandboxId (h : Shows d sandboxId orders entries) :
    Reads Scripts.sandboxId 1 d sandboxId := by
  have hselect : d.select "sandbox_metadata" ["value"] (.eq "key" (.text "sandbox_id")) none =
      .ok [[.text sandboxId]] := by
    rw [Database.select_eq_ok h.metadata (by rw [names_metadataTable]; decide)]
    simp [metadataTable, Database.ordered, Condition.Holds]
  exact (reads_select hselect).bind (m := 0) (reads_pure _)

theorem Shows.reads_migrationIds (h : Shows d sandboxId orders entries) :
    ∃ ids, Reads Scripts.migrationIds 1 d ids :=
  ⟨_, (reads_select (Database.select_eq_ok h.ledger (by rw [names_ledgerTable]; decide))).bind
    (m := 0) (reads_pure _)⟩

theorem Shows.reads_selectOrders (h : Shows d sandboxId orders entries) :
    Reads (Scripts.selectOrders orders.version) 1 d (selected orders) := by
  have hsame : d "orders" = tables ⟨[], []⟩ (ordersTable orders) ⟨[], []⟩ ⟨[], []⟩ "orders" :=
    h.orders.trans tables_orders.symm
  refine reads_select ?_
  rw [Database.select_congr hsame, select_orders]

/-- What is selected are the orders. -/
theorem exists_mapM_orderOf (orders : Orders) : ∃ found, found.Perm orders.records ∧
    (selected orders).mapM (orderOf orders.version) = .ok found := by
  obtain ⟨found, hperm, hlist⟩ := listOrders_sandboxDatabase "" orders [] ⟨[], []⟩
  have hrows : transaction (selectOrders orders.version) (sandboxDatabase "" orders [] ⟨[], []⟩) =
      (.ok (selected orders), sandboxDatabase "" orders [] ⟨[], []⟩) :=
    transaction_of_does (sees_selectOrders _ _ _ _).does
  have hread := (Effect.bind_of_ok (schemaVersion_sandboxDatabase ..)).symm.trans hlist
  rw [Effect.bind_of_ok hrows] at hread
  refine ⟨found, hperm, ?_⟩
  cases hmap : (selected orders).mapM (orderOf orders.version) with
  | ok read =>
      rw [hmap] at hread
      exact congrArg Except.ok (Except.ok.inj (congrArg Prod.fst hread))
  | error error =>
      rw [hmap] at hread
      cases congrArg Prod.fst hread

end

/-! ## Programs -/

/-- The files of a sandbox whose database can be read: the orders are in their table, with the
columns of the recorded version. -/
structure SandboxFiles.Readable (files : SandboxFiles) (sandboxId : String)
    (service : ServiceVersion) (orders : Orders) : Prop where
  stateFile : files.stateFile = some ⟨sandboxId, service.value⟩
  database : ∃ d copy, files.database = some d ∧
    HoldsContents d ⟨sandboxId, orders.version, some orders, copy⟩

namespace Sandboxed

/-- With nobody interrupting it, the program returns `a` and leaves `next`. -/
abbrev Does {α : Type} (runtime : Runtime) (x : Sandboxed α) (files : SandboxFiles) (a : α)
    (next : SandboxFiles) : Prop :=
  Routine.Does (SandboxOp.perform runtime) x files a next

variable {runtime : Runtime} {files : SandboxFiles}

/-- What a program does with nobody interrupting it is one of the ways in which it may end. -/
theorem Does.ends {α : Type} {x : Sandboxed α} {a : α} {next : SandboxFiles}
    (h : Does runtime x files a next) :
    Prog.Ends (sandboxHazards runtime) (ExceptT.run x) files (some (.ok a)) next := by
  have hends : Prog.Ends (sandboxHazards runtime) (ExceptT.run x) files _ _ :=
    Prog.ends_alone (SandboxOp.ends_perform runtime) _ _
  rwa [h] at hends

theorem does_call {path : String} {call : DatabaseCall} {d next : Sql.Database} {a : call.Answer}
    (hdatabase : files.database = some d) (hcall : call.perform runtime d = (.ok a, next)) :
    Does runtime (operate (.database path call)) files a { files with database := some next } := by
  refine Routine.does_perform ?_
  rw [SandboxOp.perform, hdatabase]
  dsimp only
  rw [hcall]
  rfl

theorem does_read {path : String} {call : DatabaseCall} {d : Sql.Database} {a : call.Answer}
    {k : ℕ} (hdatabase : files.database = some d) (hreads : Reads (call.script runtime) k d a) :
    Does runtime (operate (.database path call)) files a files := by
  have hdoes : Does runtime (operate (.database path call)) files a
      { files with database := some d } := does_call hdatabase hreads.transaction
  rwa [← hdatabase] at hdoes

theorem does_read_bind {β : Type} {path : String} {call : DatabaseCall}
    {f : call.Answer → Sandboxed β} {d : Sql.Database} {a : call.Answer} {b : β} {k : ℕ}
    {next : SandboxFiles} (hdatabase : files.database = some d)
    (hreads : Reads (call.script runtime) k d a) (hrest : Does runtime (f a) files b next) :
    Does runtime (operate (.database path call) >>= f) files b next :=
  (does_read hdatabase hreads).bind hrest

theorem Does.permanently {α : Type} {x : Sandboxed α} {a : α} {next : SandboxFiles}
    (h : Does runtime x files a next) : Does runtime (SandboxTools.permanently x) files a next :=
  Routine.Does.tryCatch h

end Sandboxed

theorem ServiceVersion.ofValue?_value (version : ServiceVersion) :
    ofValue? version.value = some version := by
  cases version with
  | v1 => rfl
  | v2 => rfl

namespace SandboxFiles.Readable

open Sandboxed

variable (tools : SandboxTools) {sandboxId : String} {service : ServiceVersion} {orders : Orders}
  {files : SandboxFiles}

theorem does_sandboxRoot (hid : isSandboxId sandboxId = true) :
    Does tools.runtime (tools.sandboxRoot sandboxId) files s!"{tools.base}/{sandboxId}" files := by
  unfold SandboxManager.sandboxRoot
  rw [if_neg (not_not.mpr hid)]
  exact Routine.does_pure _ _

theorem does_databasePath (hid : isSandboxId sandboxId = true) :
    ∃ path, Does tools.runtime (tools.databasePath sandboxId) files path files :=
  ⟨_, (does_sandboxRoot tools hid).bind (Routine.does_pure _ _)⟩

theorem does_inspect (h : files.Readable sandboxId service orders)
    (hid : isSandboxId sandboxId = true) : ∃ state : SandboxState,
      state.serviceVersion = service ∧ state.schemaVersion = orders.version ∧
      state.databaseFingerprint = ordersFingerprint tools.runtime orders ∧
      Does tools.runtime (tools.inspect sandboxId) files state files := by
  obtain ⟨d, copy, hdatabase, hholds⟩ := h.database
  obtain ⟨entries, hshows⟩ := hholds.shows
  obtain ⟨ids, hids⟩ := hshows.reads_migrationIds
  refine ⟨⟨sandboxId, s!"{tools.base}/{sandboxId}", service, orders.version, ids,
    ordersFingerprint tools.runtime orders⟩, rfl, rfl, rfl, (does_sandboxRoot tools hid).bind ?_⟩
  refine Routine.Does.bind (Routine.does_perform rfl) ?_
  rw [h.stateFile]
  dsimp only
  rw [SandboxManager.serviceVersionOf, ServiceVersion.ofValue?_value]
  refine (Routine.does_pure _ _).bind (does_read_bind hdatabase hshows.reads_sandboxId ?_)
  rw [if_neg (by simp)]
  refine does_read_bind hdatabase (reads_schemaVersionIn hshows.metadata) ?_
  refine does_read_bind hdatabase hids ?_
  exact does_read_bind hdatabase (hshows.reads_fingerprintIn _) (Routine.does_pure _ _)

/-- A service is switched in its file alone. -/
theorem switch (h : files.Readable sandboxId service orders) (target : ServiceVersion) :
    Readable { files with stateFile := some ⟨sandboxId, target.value⟩ } sandboxId target orders :=
  ⟨rfl, h.database⟩

theorem does_setServiceVersion (h : files.Readable sandboxId service orders)
    (hid : isSandboxId sandboxId = true) (target : ServiceVersion) : ∃ state,
      Readable { files with stateFile := some ⟨sandboxId, target.value⟩ } sandboxId target orders ∧
      Does tools.runtime (tools.setServiceVersion sandboxId target) files state
        { files with stateFile := some ⟨sandboxId, target.value⟩ } := by
  obtain ⟨_, _, _, _, hbefore⟩ := h.does_inspect tools hid
  obtain ⟨state, _, _, _, hafter⟩ := (h.switch target).does_inspect tools hid
  have hwrite : Does tools.runtime (SandboxManager.writeServiceVersion sandboxId target) files ()
      { files with stateFile := some ⟨sandboxId, target.value⟩ } :=
    Routine.Does.bind (b := ()) (Routine.does_perform rfl) (Routine.does_perform rfl)
  exact ⟨state, h.switch target,
    (does_sandboxRoot tools hid).bind (hbefore.bind (hwrite.bind hafter))⟩

/-- A service of the second version asks for orders of the second version. -/
theorem does_health (h : files.Readable sandboxId service orders)
    (hid : isSandboxId sandboxId = true) (hversion : service = .v2 → orders.version = .v2) :
    ∃ health : ServiceHealth, health.healthy = true ∧
      Does tools.runtime (tools.health sandboxId) files health files := by
  obtain ⟨state, hservice, hschema, _, hdoes⟩ := h.does_inspect tools hid
  refine ⟨_, ?_, hdoes.bind (Routine.does_pure _ _)⟩
  rw [decide_eq_true_iff, SandboxTools.compatible, hservice, hschema]
  cases service with
  | v1 => exact .inl rfl
  | v2 => exact .inr ⟨rfl, hversion rfl⟩

theorem does_listOrders (h : files.Readable sandboxId service orders)
    (hid : isSandboxId sandboxId = true) (hversion : service = .v2 → orders.version = .v2) :
    ∃ found, found.Perm orders.records ∧
      Does tools.runtime (tools.listOrders sandboxId) files found files := by
  obtain ⟨health, hhealthy, hhealth⟩ := h.does_health tools hid hversion
  obtain ⟨path, hpath⟩ := does_databasePath tools hid
  obtain ⟨d, copy, hdatabase, hholds⟩ := h.database
  obtain ⟨entries, hshows⟩ := hholds.shows
  obtain ⟨found, hperm, hfound⟩ := exists_mapM_orderOf orders
  refine ⟨found, hperm, hhealth.bind ?_⟩
  rw [if_neg (not_not.mpr hhealthy)]
  refine hpath.bind (does_read_bind hdatabase (reads_schemaVersionIn hshows.metadata) ?_)
  refine does_read_bind hdatabase hshows.reads_selectOrders ?_
  rw [hfound]
  exact Routine.does_pure _ _

/-- The smoke test asks for a priority of every order if the service is of the second version. -/
theorem does_validation (h : files.Readable sandboxId service orders)
    (hid : isSandboxId sandboxId = true) (hversion : service = .v2 → orders.version = .v2)
    (hnonempty : orders.records ≠ []) (smokeTest : Bool) : ∃ result,
      Does tools.runtime (SandboxTools.ValidationTool.execute tools sandboxId smokeTest) files
        result files := by
  obtain ⟨state, hservice, _, _, hinspect⟩ := h.does_inspect tools hid
  obtain ⟨health, hhealthy, hhealth⟩ := h.does_health tools hid hversion
  obtain ⟨found, hperm, hlist⟩ := h.does_listOrders tools hid hversion
  -- there are orders to read
  have hempty : ¬ found.length = 0 := by
    rw [hperm.length_eq, List.length_eq_zero_iff]
    exact hnonempty
  -- a service at v2 has the column, so every order has a priority
  have hpriority : ¬ (state.serviceVersion = .v2 ∧ ∃ order ∈ found, order.priority = none) := by
    rintro ⟨hv2, order, horder, hnone⟩
    have hsome := (orders.priority_isSome order (hperm.mem_iff.mp horder)).mpr
      (hversion (hservice.symm.trans hv2))
    rw [hnone] at hsome
    cases hsome
  cases smokeTest with
  | false =>
      refine ⟨_, Routine.Does.bind (a := (state, ["service_database_compatible"]))
        (Does.permanently (hinspect.bind (hhealth.bind ?_))) (Routine.does_pure _ _)⟩
      rw [if_neg (not_not.mpr hhealthy)]
      exact Routine.does_pure _ _
  | true =>
      refine ⟨_, Routine.Does.bind (a := (state, ["service_database_compatible", "orders_readable",
          "versioned_contract_valid"])) (Does.permanently (hinspect.bind (hhealth.bind ?_)))
        (Routine.does_pure _ _)⟩
      rw [if_neg (not_not.mpr hhealthy)]
      refine hlist.bind ?_
      rw [if_neg hempty, if_neg hpriority]
      exact Routine.does_pure _ _

/-- A migration under the present fingerprint, when none is in the ledger. -/
theorem does_schemaMigrate {effects : Table}
    (hid : isSandboxId sandboxId = true)
    (hstate : files.stateFile = some ⟨sandboxId, service.value⟩)
    (hdatabase : files.database = some (sandboxDatabase sandboxId orders [] effects))
    (hv1 : orders.version = .v1) (key : String) : ∃ result,
      Does tools.runtime (SandboxTools.SchemaMigrateTool.execute tools sandboxId key
        (ordersFingerprint tools.runtime orders)) files result
        { files with database := some (sandboxDatabase sandboxId
          (orders.withPriority (some "standard")) [migrationEntry tools.runtime key orders]
          effects) } := by
  let migrated : Sql.Database := sandboxDatabase sandboxId (orders.withPriority (some "standard"))
    [migrationEntry tools.runtime key orders] effects
  have hreadable : files.Readable sandboxId service orders :=
    ⟨hstate, _, none, hdatabase, rfl, rfl, rfl, [], rfl⟩
  have hmigrated : Readable { files with database := some migrated } sandboxId service
      (orders.withPriority (some "standard")) := ⟨hstate, _, none, rfl, rfl, rfl, rfl, _, rfl⟩
  -- the state is read before and after
  obtain ⟨before, _, _, _, hbefore⟩ := hreadable.does_inspect tools hid
  obtain ⟨after, _, _, _, hafter⟩ := hmigrated.does_inspect tools hid
  obtain ⟨path, hpath⟩ := @does_databasePath tools sandboxId files hid
  let migration : MigrationResult := ⟨migrationId, .v1, .v2,
    ordersFingerprint tools.runtime (orders.withPriority (some "standard")), false⟩
  have hcall : (DatabaseCall.migrateV1ToV2 key (ordersFingerprint tools.runtime orders)).perform
      tools.runtime (sandboxDatabase sandboxId orders [] effects) = (.ok migration, migrated) :=
    (congrFun (Scripts.transaction_migrateV1ToV2 ..) _).trans
      (migrateV1ToV2_sandboxDatabase tools.runtime sandboxId key orders effects hv1)
  have hmigrate : Does tools.runtime (operate (.database path (.migrateV1ToV2 key
      (ordersFingerprint tools.runtime orders)))) files migration
      { files with database := some migrated } := does_call hdatabase hcall
  exact ⟨_, Routine.Does.bind (a := (before, migration, after)) (Does.permanently (hbefore.bind
    (hpath.bind (hmigrate.bind (hafter.bind (Routine.does_pure _ _)))))) (Routine.does_pure _ _)⟩

/-- A new order is added, with what the service and the columns have of it. -/
theorem does_createOrder {entries : List LedgerEntry} {effects : Table} {order : OrderRecord}
    {added : Sql.Database} (hid : isSandboxId sandboxId = true)
    (hstate : files.stateFile = some ⟨sandboxId, service.value⟩)
    (hdatabase : files.database = some (sandboxDatabase sandboxId orders entries effects))
    (hversion : service = .v2 → orders.version = .v2)
    (hpriority : service = .v1 → order.priority = none)
    (hinsert : SQLiteSandboxDatabase.insertOrder order
      (sandboxDatabase sandboxId orders entries effects) = (.ok (), added)) :
    Does tools.runtime (tools.createOrder sandboxId order) files order
      { files with database := some added } := by
  have hreadable : files.Readable sandboxId service orders :=
    ⟨hstate, _, none, hdatabase, rfl, rfl, rfl, _, rfl⟩
  obtain ⟨d, copy, hsame, hholds⟩ := hreadable.database
  obtain ⟨entries', hshows⟩ := hholds.shows
  obtain rfl := Option.some.inj (hdatabase.symm.trans hsame)
  obtain ⟨state, hservice, _, _, hinspect⟩ := hreadable.does_inspect tools hid
  obtain ⟨health, hhealthy, hhealth⟩ := hreadable.does_health tools hid hversion
  obtain ⟨path, hpath⟩ := @does_databasePath tools sandboxId files hid
  have hcall : (DatabaseCall.insertOrder orders.version order).perform tools.runtime
      (sandboxDatabase sandboxId orders entries effects) = (.ok (), added) := by
    rw [Scripts.transaction_insertOrder,
      Effect.bind_of_ok (schemaVersion_sandboxDatabase ..)] at hinsert
    exact hinsert
  -- the version that is read is the one of the orders
  have hadd : Does tools.runtime (SandboxTools.insertOrder path order) files ()
      { files with database := some added } :=
    does_read_bind hdatabase (reads_schemaVersionIn hshows.metadata) (does_call hdatabase hcall)
  refine hinspect.bind ?_
  rw [if_neg (fun h => h.2 (hpriority (hservice.symm.trans h.1)))]
  refine hhealth.bind ?_
  rw [if_neg (not_not.mpr hhealthy)]
  exact hpath.bind (hadd.bind (Routine.does_pure _ _))

/-- The process may die in a rollback when the orders are only in their copy. -/
theorem mayStop_schemaRollback {entries : List LedgerEntry} {effects : Table} {key : String}
    (hid : isSandboxId sandboxId = true)
    (hstate : files.stateFile = some ⟨sandboxId, ServiceVersion.v1.value⟩)
    (hdatabase : files.database = some (sandboxDatabase sandboxId orders entries effects))
    (hv2 : orders.version = .v2) (hstandard : AllStandard orders)
    (hnew : ∀ entry ∈ entries, entry.migrationId ≠ rollbackId ∧ entry.idempotencyKey ≠ key) :
    Routine.MayStop (sandboxHazards tools.runtime)
      (SandboxTools.SchemaRollbackTool.execute tools sandboxId key) files
      { files with database := some ((copiedDatabase sandboxId orders entries effects
        (ordersTable (orders.withPriority none))).set "orders" none) } := by
  have hreadable : files.Readable sandboxId .v1 orders :=
    ⟨hstate, _, none, hdatabase, rfl, rfl, rfl, _, rfl⟩
  obtain ⟨before, hservice, _, _, hbefore⟩ := hreadable.does_inspect tools hid
  obtain ⟨path, hpath⟩ := @does_databasePath tools sandboxId files hid
  have hexec := SandboxOp.ends_perform tools.runtime
  let c : Connection := ⟨sandboxDatabase sandboxId (orders.withPriority none) entries effects, none⟩
  have hinsert := (trace_insertLedger sandboxId (orders.withPriority none) entries effects (c := c)
    (rollbackEntry tools.runtime key orders) (fun entry hentry => (hnew entry hentry).2) rfl).1
    fun entry hentry => (hnew entry hentry).1
  have htrace := trace_connected (trace_rollbackV2ToV1 tools.runtime sandboxId key orders entries
    effects hv2 hstandard (fun entry hentry => (hnew entry hentry).2) rfl rfl rfl rfl rfl rfl
    hinsert)
  -- the next request is to rename the copy
  have hleaves : (DatabaseCall.rollbackV2ToV1 key).Leaves tools.runtime
      (sandboxDatabase sandboxId orders entries effects) none ((copiedDatabase sandboxId orders
        entries effects (ordersTable (orders.withPriority none))).set "orders" none) :=
    ⟨_, htrace.mayStop (n := 8) rfl, rfl⟩
  have hstops : SandboxOp.Stops tools.runtime (.database path (.rollbackV2ToV1 key)) files _ :=
    .within path hdatabase hleaves
  apply Routine.MayStop.bind
  apply Routine.MayStop.tryCatch
  apply hbefore.bind_mayStop hexec
  rw [if_neg (not_not.mpr hservice)]
  apply hpath.bind_mayStop hexec
  exact (Routine.mayStop_perform hstops).bind

end SandboxFiles.Readable

/-! ## Recorded effects -/

/-- A row of `tool_effects`. -/
structure EffectEntry where
  key : String
  toolName : String
  text : String

def EffectEntry.row (entry : EffectEntry) : Row := [
  ("logical_idempotency_key", .text entry.key), ("tool_name", .text entry.toolName),
  ("output_json", .text entry.text)]

def effectsTable (effects : List EffectEntry) : Table where
  columns := effectsColumns
  rows := effects.map EffectEntry.row

theorem names_effectsTable (effects : List EffectEntry) : (effectsTable effects).names =
    ["logical_idempotency_key", "tool_name", "output_json"] := rfl

section

variable {d next : Sql.Database} {effects : List EffectEntry}

/-- The effects under a key, as they are read. -/
theorem select_effects (h : d "tool_effects" = some (effectsTable effects)) (key : String) :
    d.select "tool_effects" ["tool_name", "output_json"]
      (.eq "logical_idempotency_key" (.text key)) none =
    .ok ((effects.filter fun entry => entry.key = key).map fun entry =>
      [.text entry.toolName, .text entry.text]) := by
  rw [Database.select_eq_ok h (by simp [names_effectsTable, Condition.columns])]
  have hfound : (effectsTable effects).rows.filter
      (fun row => Condition.Holds row (.eq "logical_idempotency_key" (.text key))) =
      (effects.filter fun entry => entry.key = key).map EffectEntry.row := by
    rw [effectsTable, List.filter_map]
    refine congrArg _ (List.filter_congr fun entry _ => ?_)
    simp [Condition.Holds, EffectEntry.row]
  rw [hfound]
  simp [Database.ordered, EffectEntry.row]

/-- A new key may be recorded. -/
theorem run_recordEffect_iff (h : d "tool_effects" = some (effectsTable effects))
    (entry : EffectEntry) : d.run (.insert "tool_effects" entry.row) = .ok next ↔
      (∀ other ∈ effects, other.key ≠ entry.key) ∧
      next = d.set "tool_effects" (some (effectsTable (effects ++ [entry]))) := by
  have hrows : (effectsTable (effects ++ [entry])) = { effectsTable effects with
      rows := (effectsTable effects).rows ++ [entry.row] } := by
    rw [effectsTable, List.map_append]
    rfl
  have hrow : (effectsTable effects).rowOf entry.row = entry.row := rfl
  have hadmits : (∀ column ∈ effectsColumns,
      column.Admits (effects.map EffectEntry.row) entry.row) ↔
      ∀ other ∈ effects, other.key ≠ entry.key := by
    simp only [effectsColumns, List.forall_mem_cons]
    constructor
    · intro hadmits other hother heq
      refine hadmits.1.unique (.inl rfl) (by simp [EffectEntry.row]) _
        (List.mem_map_of_mem hother) ?_
      simp [EffectEntry.row, heq]
    · intro hnew
      refine ⟨⟨by simp, by simp, ?_⟩, ⟨by simp [EffectEntry.row], by simp, by simp⟩,
        ⟨by simp [EffectEntry.row], by simp, by simp⟩, List.forall_mem_nil _⟩
      intro _ _
      rw [List.forall_mem_map]
      intro other hother
      simp [EffectEntry.row, hnew other hother]
  rw [Database.run_insert_eq_ok_iff h (by simp [names_effectsTable, EffectEntry.row]), hrow, hrows,
    show (effectsTable effects).columns = effectsColumns from rfl,
    show (effectsTable effects).rows = effects.map EffectEntry.row from rfl, hadmits]
  exact and_iff_right (by simp [EffectEntry.row, Database.checkParameter])

theorem reads_effectOutput (h : d "tool_effects" = some (effectsTable effects)) {key : String}
    (hnew : ∀ entry ∈ effects, entry.key ≠ key) (toolName : String) :
    Reads (Scripts.effectOutput key toolName) 1 d none := by
  have hselect := select_effects h key
  rw [List.filter_eq_nil_iff.mpr fun entry hentry => by simp [hnew entry hentry]] at hselect
  exact (reads_select hselect).bind (m := 0) (reads_pure _)

theorem reads_effectOutput_of_append {entry : EffectEntry}
    (h : d "tool_effects" = some (effectsTable (effects ++ [entry])))
    (hnew : ∀ other ∈ effects, other.key ≠ entry.key) :
    Reads (Scripts.effectOutput entry.key entry.toolName) 1 d (some entry.text) := by
  have hselect := select_effects h entry.key
  have hfound : (effects ++ [entry]).filter (fun other => other.key = entry.key) = [entry] := by
    rw [List.filter_append, List.filter_eq_nil_iff.mpr fun other hother => by
      simp [hnew other hother]]
    simp
  rw [hfound, List.map_singleton] at hselect
  refine (reads_select hselect).bind (m := 0) ?_
  rw [List.head?_cons]
  dsimp only
  rw [if_neg (by simp)]
  exact reads_pure _

end

/-! ## Deployments -/

/-- The database of the sandbox records these effects. -/
def SandboxFiles.Records (files : SandboxFiles) (effects : List EffectEntry) : Prop :=
  ∃ d, files.database = some d ∧ d "tool_effects" = some (effectsTable effects)

/-- The database of the sandbox records an effect under the key. -/
def SandboxFiles.HasRecord (files : SandboxFiles) (key : String) : Prop :=
  ∃ effects, files.Records effects ∧ ∃ entry ∈ effects, entry.key = key

namespace SandboxFiles

open Sandboxed

variable {files : SandboxFiles} {sandboxId : String} {service : ServiceVersion} {orders : Orders}
  {effects : List EffectEntry} {key : String}

/-- An effect is recorded in a table of its own. -/
theorem Readable.record (h : files.Readable sandboxId service orders)
    (heffects : files.Records effects) {entry : EffectEntry} {next : Sql.Database}
    {d : Sql.Database} (hdatabase : files.database = some d)
    (hrun : d.run (.insert "tool_effects" entry.row) = .ok next) :
    Readable { files with database := some next } sandboxId service orders ∧
      Records { files with database := some next } (effects ++ [entry]) := by
  obtain ⟨other, hother, hrecords⟩ := heffects
  obtain rfl := Option.some.inj (hdatabase.symm.trans hother)
  obtain ⟨other, copy, hother, hholds⟩ := h.database
  obtain rfl := Option.some.inj (hdatabase.symm.trans hother)
  obtain ⟨_, rfl⟩ := (run_recordEffect_iff hrecords entry).mp hrun
  refine ⟨⟨h.stateFile, _, copy, rfl, hholds.of_same fun name hname => ?_⟩, _, rfl, by simp⟩
  refine Database.set_of_ne _ _ ?_
  rintro rfl
  simp at hname

theorem Records.hasRecord_iff (h : files.Records effects) :
    files.HasRecord key ↔ ∃ entry ∈ effects, entry.key = key := by
  refine ⟨?_, fun hentry => ⟨effects, h, hentry⟩⟩
  rintro ⟨others, ⟨d, hd, hothers⟩, entry, hentry, hkey⟩
  obtain ⟨d', hd', heffects⟩ := h
  obtain rfl := Option.some.inj (hd.symm.trans hd')
  have hrows : effects.map EffectEntry.row = others.map EffectEntry.row :=
    congrArg Table.rows (Option.some.inj (heffects.symm.trans hothers))
  obtain ⟨found, hfound, hsame⟩ : ∃ found ∈ effects, found.row = entry.row :=
    List.mem_map.mp (hrows ▸ List.mem_map_of_mem hentry)
  refine ⟨found, hfound, ?_⟩
  rw [← hkey]
  simpa [EffectEntry.row] using congrArg (Row.get · "logical_idempotency_key") hsame

end SandboxFiles

section

open Sandboxed

variable {tools : SandboxTools} {sandboxId key : String} {service : ServiceVersion}
  {orders : Orders} {effects : List EffectEntry} {files : SandboxFiles}

/-- With nobody interrupting it, a deployment under a new key switches the service. -/
theorem does_deployment (tool : SandboxTools.ServiceVersionTool)
    (h : files.Readable sandboxId service orders) (heffects : files.Records effects)
    (hid : isSandboxId sandboxId = true) (hnew : ∀ entry ∈ effects, entry.key ≠ key)
    (hready : tool.targetVersion = .v2 → orders.version = .v2) : ∃ result next,
      (result.effectApplied = true ↔ service ≠ tool.targetVersion) ∧
      next.Readable sandboxId tool.targetVersion orders ∧
      Does tools.runtime (tool.execute tools sandboxId key) files result next := by
  obtain ⟨d, hdatabase, htable⟩ := heffects
  obtain ⟨path, hpath⟩ := SandboxFiles.Readable.does_databasePath tools hid
  obtain ⟨before, hservice, hschema, _, hbefore⟩ := h.does_inspect tools hid
  obtain ⟨after, hswitched, hafter⟩ := h.does_setServiceVersion tools hid tool.targetVersion
  -- what is recorded under the key
  let entry : EffectEntry :=
    ⟨key, tool.name, dumpOutput (tool.output sandboxId before after)⟩
  have hrun : d.run (.insert "tool_effects" entry.row) =
      .ok (d.set "tool_effects" (some (effectsTable (effects ++ [entry])))) :=
    (run_recordEffect_iff htable entry).mpr ⟨hnew, rfl⟩
  -- the key is new, so the insertion cannot fail
  have hrecord : (DatabaseCall.recordEffect key tool.name entry.text).perform tools.runtime d =
      (.ok (), d.set "tool_effects" (some (effectsTable (effects ++ [entry])))) :=
    transaction_of_does (Sql.does_execute hrun)
  -- the schema is ready for the target
  have hnotready : ¬ (tool.targetVersion = .v2 ∧ before.schemaVersion ≠ .v2) := by
    rintro ⟨hv2, hother⟩
    exact hother (hschema.trans (hready hv2))
  refine ⟨⟨.action (tool.output sandboxId before after),
      ¬ (tool.output sandboxId before after).alreadyApplied⟩, _, ?_,
    (hswitched.record ⟨d, hdatabase, htable⟩ hdatabase hrun).1,
    Does.permanently (hpath.bind (does_read_bind hdatabase
      (reads_effectOutput htable hnew tool.name) (hbefore.bind ?_)))⟩
  · simp [SandboxTools.ServiceVersionTool.output, hservice]
  · rw [if_neg hnotready]
    have hrecorded : Does tools.runtime
        (operate (.database path (.recordEffect key tool.name entry.text)))
        { files with stateFile := some ⟨sandboxId, tool.targetVersion.value⟩ } ()
        { files with
          stateFile := some ⟨sandboxId, tool.targetVersion.value⟩
          database := some (d.set "tool_effects" (some (effectsTable (effects ++ [entry])))) } :=
      does_call hdatabase hrecord
    exact hafter.bind (hrecorded.bind (Routine.does_pure _ _))

/-- A deployment that is recorded is found. -/
theorem does_probe_of_record (tool : SandboxTools.ServiceVersionTool)
    (hid : isSandboxId sandboxId = true) (hnew : ∀ entry ∈ effects, entry.key ≠ key)
    {output : ActionOutput}
    (heffects : files.Records (effects ++ [⟨key, tool.name, dumpOutput output⟩])) :
    Does tools.runtime (tool.probe tools sandboxId key) files (.found output) files := by
  obtain ⟨d, hdatabase, htable⟩ := heffects
  obtain ⟨path, hpath⟩ := SandboxFiles.Readable.does_databasePath tools hid
  refine Routine.Does.bind (a := some (some (dumpOutput output))) (Routine.Does.tryCatch
    (hpath.bind (does_read_bind hdatabase (reads_effectOutput_of_append htable hnew)
      (Routine.does_pure _ _)))) ?_
  unfold SandboxTools.loadOutput
  dsimp only
  rw [tools.texts.load_dump]
  exact Routine.does_pure _ _

theorem does_probe_of_new (tool : SandboxTools.ServiceVersionTool)
    (hid : isSandboxId sandboxId = true) (heffects : files.Records effects)
    (hnew : ∀ entry ∈ effects, entry.key ≠ key) :
    Does tools.runtime (tool.probe tools sandboxId key) files .notFound files := by
  obtain ⟨d, hdatabase, htable⟩ := heffects
  obtain ⟨path, hpath⟩ := SandboxFiles.Readable.does_databasePath tools hid
  exact Routine.Does.bind (a := some none) (Routine.Does.tryCatch
    (hpath.bind (does_read_bind hdatabase (reads_effectOutput htable hnew tool.name)
      (Routine.does_pure _ _)))) (Routine.does_pure _ _)

end

end ChangePilot
