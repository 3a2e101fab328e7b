import ChangePilot.Guarantees.Deployments

/-!
# Histories of a sandbox

A sandbox is created, tools are executed and probed in it, and orders are created, one after
the other.  Any of these programs may fail or stop at any of its operations; what is kept
nevertheless, and what is served, is proved over whole histories.
-/

namespace ChangePilot

open Sql SQLiteSandboxDatabase

/-! ## Histories -/

/-- The order, if the service has answered that it accepts it. -/
def acceptedOrder (order : OrderRecord) : Option (Except SandboxError OrderRecord) → List OrderRecord
  | some (.ok _) => [order]
  | _ => []

/-- What may become of a sandbox after it was created, with the orders that it has accepted.
Tools are executed with or without faults and probed, and orders are created, one after the
other; each of these programs may fail or stop at any of its operations. -/
inductive History (tools : SandboxTools) (sandboxId : String) :
    List OrderRecord → SandboxFiles → Prop
  | created (hid : isSandboxId sandboxId = true) : History tools sandboxId baseline.records
      { stateFile := some ⟨sandboxId, ServiceVersion.v1.value⟩
        database := some (initializeV1 sandboxId fun _ => none).2 }
  | configured {accepted : List OrderRecord} {files next : SandboxFiles}
      (h : History tools sandboxId accepted files) (specs : List FaultSpec)
      {result : Option (Except SandboxError Unit)}
      (hends : Prog.Ends (sandboxHazards tools.runtime)
        (ExceptT.run (SandboxTools.DeterministicFaultInjector.configure specs)) files result next) :
      History tools sandboxId accepted next
  | executed {accepted : List OrderRecord} {files next : SandboxFiles}
      (h : History tools sandboxId accepted files) (call : SandboxTools.Call)
      {result : Option (Except SandboxError SandboxResult)}
      (hends : Prog.Ends (sandboxHazards tools.runtime)
        (ExceptT.run (tools.execute sandboxId call)) files result next) :
      History tools sandboxId accepted next
  | executedWithFaults {accepted : List OrderRecord} {files next : SandboxFiles}
      (h : History tools sandboxId accepted files) (call : SandboxTools.Call)
      {result : Option (Except SandboxError SandboxResult)}
      (hends : Prog.Ends (sandboxHazards tools.runtime)
        (ExceptT.run (tools.executeWithFaults sandboxId call)) files result next) :
      History tools sandboxId accepted next
  | probed {accepted : List OrderRecord} {files next : SandboxFiles}
      (h : History tools sandboxId accepted files) (call : SandboxTools.Call)
      {result : Option (Except SandboxError SandboxProbe)}
      (hends : Prog.Ends (sandboxHazards tools.runtime)
        (ExceptT.run (tools.probe sandboxId call)) files result next) :
      History tools sandboxId accepted next
  | ordered {accepted : List OrderRecord} {files next : SandboxFiles}
      (h : History tools sandboxId accepted files) (order : OrderRecord)
      {result : Option (Except SandboxError OrderRecord)}
      (hends : Prog.Ends (sandboxHazards tools.runtime)
        (ExceptT.run (tools.createOrder sandboxId order)) files result next) :
      History tools sandboxId (accepted ++ acceptedOrder order result) next

namespace History

variable {tools : SandboxTools} {sandboxId : String} {accepted : List OrderRecord}
  {files : SandboxFiles}

theorem isSandboxId (h : History tools sandboxId accepted files) :
    isSandboxId sandboxId = true := by
  induction h with
  | created hid => exact hid
  | configured _ _ _ ih | executed _ _ _ ih | executedWithFaults _ _ _ ih | probed _ _ _ ih
  | ordered _ _ _ ih => exact ih

/-- The orders of a new sandbox count as accepted. -/
theorem mem_of_mem_baseline (h : History tools sandboxId accepted files) :
    ∀ order ∈ baseline.records, order ∈ accepted := by
  induction h with
  | created => exact fun _ horder => horder
  | configured _ _ _ ih | executed _ _ _ ih | executedWithFaults _ _ _ ih | probed _ _ _ ih =>
      exact ih
  | ordered _ _ _ ih => exact fun order horder => List.mem_append_left _ (ih order horder)

/-- A new sandbox holds the baseline orders. -/
theorem holds_initializeV1 (sandboxId : String) :
    HoldsContents (initializeV1 sandboxId fun _ => none).2 ⟨sandboxId, .v1, some baseline, none⟩ := by
  rw [initializeV1_eq]
  exact ⟨rfl, rfl, rfl, [], rfl⟩

theorem running (h : History tools sandboxId accepted files) :
    Running sandboxId accepted files := by
  induction h with
  | created hid =>
      refine ⟨.v1, rfl, _, rfl, _, holds_initializeV1 sandboxId, rfl,
        ⟨baseline, .inl rfl, fun order horder => ⟨order, horder, rfl, rfl, rfl, fun hother => ?_⟩⟩,
        fun h => absurd h (by decide)⟩
      exact absurd (by revert order; decide) hother
  | configured _ specs hends ih => exact (assured_configure ih specs).of_ends hends
  | executed _ call hends ih => exact (assured_execute ih call).of_ends hends
  | executedWithFaults _ call hends ih =>
      exact (assured_injectFaults (fun _ h => assured_execute h call) ih call.name).of_ends hends
  | probed _ call hends ih =>
      exact (Sandboxed.looks_probe _ _ call _ _ _ _ ih fun _ => ih).of_ends hends
  | @ordered accepted files next _ order result hends ih =>
      have hassured : Sandboxed.Assured tools.runtime (Running sandboxId accepted)
          (fun _ => Running sandboxId (accepted ++ [order])) (tools.createOrder sandboxId order)
          files := assured_createOrder ih order
      obtain ⟨hend, hstop⟩ := Prog.assured_iff.mp hassured
      have hrefused (hkept : Running sandboxId accepted next) :
          Running sandboxId (accepted ++ []) next := by rwa [List.append_nil]
      rcases result with _ | (e | created)
      · exact hrefused (hstop next hends)
      · exact hrefused (hend _ next hends)
      · exact hend _ next hends

end History

/-- Whatever was done in a sandbox, and wherever it failed or stopped: every accepted order
is in the table of the orders, or that table is gone and all of them are in the copy that
was to take its place. -/
theorem accepted_orders_are_kept {tools : SandboxTools} {sandboxId : String}
    {accepted : List OrderRecord} {files : SandboxFiles}
    (h : History tools sandboxId accepted files) : ∃ d, files.database = some d ∧
      ∃ orders : Orders, (d "orders" = some (ordersTable orders) ∨
        d "orders" = none ∧ d "orders_v1" = some (ordersTable orders)) ∧ orders.Keep accepted := by
  obtain ⟨service, hserve⟩ := h.running
  obtain ⟨d, hdatabase, contents, hholds, _, hserves⟩ := hserve.database
  obtain ⟨orders, horders, hkeep⟩ := hserves.kept
  refine ⟨d, hdatabase, orders, ?_, hkeep⟩
  rw [hholds.orders, hholds.copy]
  rcases horders with horders | ⟨hnone, hcopy⟩
  · exact .inl (by rw [horders]; rfl)
  · exact .inr ⟨by rw [hnone]; rfl, by rw [hcopy]; rfl⟩

/-! ## A sandbox -/

/-- Tools that read back what they have dumped. -/
noncomputable def Sample.sandboxTools : SandboxTools where
  base := "/sandboxes"
  runtime := Sample.canonicalRuntime
  texts := {
    load := Function.partialInv dumpOutput
    load_dump := Function.partialInv_left dumpOutput_injective }

def Sample.newSandbox : SandboxFiles where
  stateFile := some ⟨"sandbox", ServiceVersion.v1.value⟩
  database := some (sandboxDatabase "sandbox" baseline [] (effectsTable []))

theorem Sample.history_newSandbox :
    History Sample.sandboxTools "sandbox" baseline.records Sample.newSandbox := by
  have hcreated := @History.created Sample.sandboxTools "sandbox" (by decide)
  rwa [initializeV1_eq] at hcreated

/-- The sandbox after a migration. -/
def Sample.migratedSandbox : SandboxFiles where
  stateFile := some ⟨"sandbox", ServiceVersion.v1.value⟩
  database := some (sandboxDatabase "sandbox" (baseline.withPriority (some "standard"))
    [migrationEntry canonicalRuntime "migration" baseline] (effectsTable []))

theorem Sample.history_migratedSandbox :
    History sandboxTools "sandbox" baseline.records migratedSandbox := by
  obtain ⟨result, hdoes⟩ := @SandboxFiles.Readable.does_schemaMigrate sandboxTools "sandbox"
    .v1 baseline newSandbox (effectsTable []) (by decide) rfl rfl rfl "migration"
  exact history_newSandbox.executed (.migrate "migration" _) hdoes.ends

theorem Sample.exists_migrated : ∃ files,
    History Sample.sandboxTools "sandbox" baseline.records files ∧
    files.Readable "sandbox" .v1 (baseline.withPriority (some "standard")) ∧ files.Records [] :=
  ⟨migratedSandbox, history_migratedSandbox,
    ⟨rfl, _, none, rfl, rfl, rfl, rfl, _, rfl⟩, _, rfl, rfl⟩

/-- An order is taken after the migration, and a rollback dies when it has dropped the table. -/
theorem Sample.exists_cutOff : ∃ (files : SandboxFiles) (d : Sql.Database),
    History sandboxTools "sandbox" (baseline.records ++ [laterOrder]) files ∧
    files.database = some d ∧ d "orders" = none := by
  obtain ⟨added, hversion, hrecords, hinsert⟩ := insertOrder_laterOrder
    [migrationEntry canonicalRuntime "migration" baseline] (effectsTable [])
  let ordered : SandboxFiles := { migratedSandbox with database := some (sandboxDatabase "sandbox"
    added [migrationEntry canonicalRuntime "migration" baseline] (effectsTable [])) }
  have hordered : Sandboxed.Does sandboxTools.runtime
      (sandboxTools.createOrder "sandbox" laterOrder) migratedSandbox laterOrder ordered :=
    @SandboxFiles.Readable.does_createOrder sandboxTools "sandbox" .v1 _ migratedSandbox _ _
      laterOrder _ (by decide) rfl rfl ServiceVersion.noConfusion (fun _ => rfl) hinsert
  have hstandard : AllStandard added := by
    rw [AllStandard, hrecords]
    decide
  have hstops := @SandboxFiles.Readable.mayStop_schemaRollback sandboxTools "sandbox" added ordered
    _ _ "rollback" (by decide) rfl rfl hversion hstandard (by decide)
  exact ⟨_, _, (history_migratedSandbox.ordered laterOrder hordered.ends).executed
    (.rollback "rollback") hstops, rfl, Database.set_self _ "orders" none⟩

theorem accepted_orders_are_kept_cutOff : ∃ (files : SandboxFiles) (d : Sql.Database)
    (orders : Orders), History Sample.sandboxTools "sandbox"
      (baseline.records ++ [Sample.laterOrder]) files ∧ files.database = some d ∧
      d "orders" = none ∧ d "orders_v1" = some (ordersTable orders) ∧
      orders.Keep (baseline.records ++ [Sample.laterOrder]) := by
  obtain ⟨files, d, hhistory, hdatabase, hgone⟩ := Sample.exists_cutOff
  obtain ⟨other, hother, orders, horders, hkeep⟩ := accepted_orders_are_kept hhistory
  obtain rfl := Option.some.inj (hdatabase.symm.trans hother)
  rcases horders with hthere | ⟨_, hcopy⟩
  · rw [hgone] at hthere
    cases hthere
  · exact ⟨files, d, orders, hhistory, hdatabase, hgone, hcopy, hkeep⟩

/-! ## A deployed service -/

/-- A service of the second version always serves: whatever was done in the sandbox before,
and wherever it failed or stopped, all orders are listed with their priorities, every accepted
order is among them, and the smoke test passes. -/
theorem deployed_service_serves_orders {tools : SandboxTools} {sandboxId : String}
    {accepted : List OrderRecord} {files : SandboxFiles}
    (h : History tools sandboxId accepted files)
    (hdeployed : files.stateFile = some ⟨sandboxId, ServiceVersion.v2.value⟩) :
    (∃ found, Sandboxed.Does tools.runtime (tools.listOrders sandboxId) files found files ∧
      (∀ order ∈ found, order.priority.isSome = true) ∧
      ∀ order ∈ accepted, ∃ record ∈ found, order.KeptAs record) ∧
    ∃ result, Sandboxed.Does tools.runtime
      (SandboxTools.ValidationTool.execute tools sandboxId true) files result files := by
  obtain ⟨service, hserve⟩ := h.running
  have hid := h.isSandboxId
  obtain rfl : service = .v2 := by
    have hvalue := hserve.stateFile.symm.trans hdeployed
    cases service with
    | v1 => simp [ServiceVersion.value] at hvalue
    | v2 => rfl
  obtain ⟨d, hdatabase, contents, hholds, hsame, hserves⟩ := hserve.database
  obtain ⟨hversion, orders, horders, hv2⟩ := hserves.served rfl
  have hreadable : files.Readable sandboxId .v2 orders := by
    refine ⟨hdeployed, d, contents.copy, hdatabase, ?_⟩
    rw [← hsame, hv2, ← hversion, ← horders]
    exact hholds
  have hkeep := hserves.keep horders
  have hnonempty : orders.records ≠ [] := by
    obtain ⟨record, hrecord, _⟩ := hkeep _ (h.mem_of_mem_baseline _ List.mem_cons_self)
    exact List.ne_nil_of_mem hrecord
  obtain ⟨found, hperm, hlist⟩ := hreadable.does_listOrders tools hid fun _ => hv2
  refine ⟨⟨found, hlist, fun order horder => ?_, fun order horder => ?_⟩,
    hreadable.does_validation tools hid (fun _ => hv2) hnonempty true⟩
  · exact (orders.priority_isSome order (hperm.mem_iff.mp horder)).mpr hv2
  · obtain ⟨record, hrecord, hkept⟩ := hkeep order horder
    exact ⟨record, hperm.mem_iff.mpr hrecord, hkept⟩

theorem deployed_service_serves_orders_deployed : ∃ files,
    files.stateFile = some ⟨"sandbox", ServiceVersion.v2.value⟩ ∧
    (∃ found, Sandboxed.Does Sample.sandboxTools.runtime
      (Sample.sandboxTools.listOrders "sandbox") files found files ∧
      (∀ order ∈ found, order.priority.isSome = true) ∧
      ∀ order ∈ baseline.records, ∃ record ∈ found, order.KeptAs record) ∧
    ∃ result, Sandboxed.Does Sample.sandboxTools.runtime
      (SandboxTools.ValidationTool.execute Sample.sandboxTools "sandbox" true) files result
      files := by
  obtain ⟨migrated, hhistory, hreadable, hrecords⟩ := Sample.exists_migrated
  obtain ⟨result, files, _, hdeployed, hdoes⟩ := does_deployment SandboxTools.deployV2 hreadable
    hrecords (by decide) (List.forall_mem_nil _) fun _ => rfl
  exact ⟨files, hdeployed.stateFile, deployed_service_serves_orders
    (hhistory.executed (.serviceVersion SandboxTools.deployV2 "deployment") hdoes.ends)
    hdeployed.stateFile⟩

end ChangePilot
