import ChangePilot.Library.SqlHazards
import ChangePilot.Sandbox.Tools

/-!
# Programs of the sandbox under hazards

The rules for the operations of a sandbox, and the programs that only read: whatever happens
to them, they leave the sandbox as it is.
-/

namespace ChangePilot

open Sql SQLiteSandboxDatabase

/-! ## Texts of outputs -/

theorem ServiceVersion.value_injective : Function.Injective ServiceVersion.value := by
  intro a b h
  cases a <;> cases b <;> simp_all [value]

theorem SchemaVersion.value_injective : Function.Injective SchemaVersion.value := by
  intro a b h
  cases a <;> cases b <;> simp_all [value]

theorem statePayload_injective {S : Type} :
    Function.Injective (statePayload : SandboxState → Json S) := by
  rintro ⟨sandboxId, root, service, schema, ids, fingerprint⟩ ⟨_, _, _, _, _, _⟩ h
  simp only [statePayload, Json.obj.injEq, List.cons.injEq, Prod.mk.injEq, Json.str.injEq,
    Json.arr.injEq, true_and, and_true] at h
  obtain ⟨rfl, hids, rfl, rfl, hschema, hservice⟩ := h
  have hstr : Function.Injective (Json.str : String → Json S) := fun _ _ h => Json.str.inj h
  obtain rfl := hstr.list_map hids
  rw [SchemaVersion.value_injective hschema, ServiceVersion.value_injective hservice]

theorem outputPayload_injective : Function.Injective outputPayload := by
  rintro ⟨sandboxId, action, before, after, summary, applied⟩ ⟨_, _, other, _, _, _⟩ h
  simp only [outputPayload, Json.obj.injEq, List.cons.injEq, Prod.mk.injEq, Json.str.injEq,
    Json.scalar.injEq, Option.some.injEq, true_and, and_true] at h
  obtain ⟨rfl, hafter, rfl, hbefore, rfl, rfl⟩ := h
  obtain rfl := statePayload_injective hafter
  have hsame : before = other := by
    rcases before with _ | before <;> rcases other with _ | other
    · rfl
    · cases hbefore
    · cases hbefore
    · exact congrArg some (statePayload_injective hbefore)
  rw [hsame]

/-- Different outputs have different texts. -/
theorem dumpOutput_injective : Function.Injective dumpOutput := by
  have htokens : Json.Tokens fun constant => (constantText constant).toList :=
    { injective := fun _ _ h => constantText_injective (String.toList_injective h)
      ne_nil := fun constant h => constantText_ne_empty constant (String.toList_injective h)
      bare := fun _ _ hc => bare_constantText hc }
  exact fun a b h => outputPayload_injective
    (Json.encode_injective htokens (String.ofList_injective h))

/-! ## Scripts that only read -/

section

open Script

variable {runtime : Runtime}

theorem looks_schemaVersionOf (value : Sql.Value) : Looks (Scripts.schemaVersionOf value) := by
  unfold Scripts.schemaVersionOf
  split
  · split
    · exact looks_pure _
    · exact looks_reject _
  · exact looks_reject _

theorem looks_schemaVersionIn : Looks Scripts.schemaVersionIn := by
  refine (looks_select _ _ _ _).bind fun rows => ?_
  split
  · exact looks_reject _
  · exact looks_schemaVersionOf _

theorem looks_fingerprintIn : Looks (Scripts.fingerprintIn runtime) :=
  looks_schemaVersionIn.bind fun _ => (looks_tableInfo _).bind fun _ =>
    (looks_select _ _ _ _).bind fun _ => looks_pure _

theorem looks_migrationByKey (key : String) : Looks (Scripts.migrationByKey key) :=
  (looks_select _ _ _ _).bind fun _ => looks_pure _

theorem looks_appliedMigration (migrationId : String) (existing : List Sql.Value) :
    Looks (Scripts.appliedMigration migrationId existing) := by
  refine looks_ite ((looks_reject _).bind fun _ => ?_) ?_
  · exact (looks_schemaVersionOf _).bind fun _ => (looks_schemaVersionOf _).bind fun _ =>
      looks_pure _
  · exact (looks_schemaVersionOf _).bind fun _ => (looks_schemaVersionOf _).bind fun _ =>
      looks_pure _

/-- The calls that change nothing. -/
def DatabaseCall.ReadsOnly : DatabaseCall → Prop
  | .insertOrder .. | .migrateV1ToV2 .. | .rollbackV2ToV1 _ | .recordEffect .. => False
  | _ => True

theorem DatabaseCall.ReadsOnly.looks {call : DatabaseCall} (h : call.ReadsOnly) :
    Looks (call.script runtime) := by
  cases call with
  | schemaVersion => exact looks_schemaVersionIn
  | sandboxId =>
      refine (looks_select _ _ _ _).bind fun rows => ?_
      split
      · exact looks_reject _
      · exact looks_pure _
  | migrationIds => exact (looks_select _ _ _ _).bind fun _ => looks_pure _
  | fingerprint => exact looks_fingerprintIn
  | selectOrders version => exact looks_select _ _ _ _
  | migrationForKey key =>
      refine (looks_migrationByKey key).bind fun existing => ?_
      split
      · exact looks_pure _
      · exact (looks_schemaVersionOf _).bind fun _ => (looks_schemaVersionOf _).bind fun _ =>
          looks_pure _
  | effectOutput key name =>
      refine (looks_select _ _ _ _).bind fun rows => ?_
      split
      · exact looks_pure _
      · exact looks_ite ((looks_reject _).bind fun _ => looks_pure _) (looks_pure _)
  | insertOrder | migrateV1ToV2 | rollbackV2ToV1 | recordEffect => exact h.elim

end

/-! ## Operations -/

/-- What an operation does without a mishap is one of the ways in which it may end. -/
theorem SandboxOp.ends_perform (runtime : Runtime) (op : SandboxOp) (files : SandboxFiles) :
    SandboxOp.Ends runtime op files (op.perform runtime files).1 (op.perform runtime files).2 := by
  cases op with
  | database path call =>
      cases hdatabase : files.database with
      | none => exact .performed _ _ fun _ _ _ => hdatabase
      | some d =>
          rw [SandboxOp.perform, hdatabase]
          exact .called path hdatabase (call.leaves_perform runtime d)
  | readState | writeTemporary | replaceState | readFaults | writeFaults =>
      exact .performed _ _ fun _ _ h => SandboxOp.noConfusion h

namespace Sandboxed

variable {runtime : Runtime} {α β : Type}

variable (runtime) in
/-- The program keeps `I` of the sandbox, and ends with `Q`. -/
def Assured (I : SandboxFiles → Prop) (Q : α → SandboxFiles → Prop) (x : Sandboxed α)
    (files : SandboxFiles) : Prop :=
  Routine.Assured (sandboxHazards runtime) I Q (fun _ => I) x files

variable {I : SandboxFiles → Prop} {Q : α → SandboxFiles → Prop} {x : Sandboxed α}
  {files : SandboxFiles}

theorem assured_pure {a : α} (h : Q a files) : Assured runtime I Q (pure a) files := h

theorem assured_throw {e : SandboxError} (h : I files) :
    Assured runtime I Q (throw e : Sandboxed α) files := h

theorem assured_bind {Q : β → SandboxFiles → Prop} {f : α → Sandboxed β} :
    Assured runtime I Q (x >>= f) files ↔
      Assured runtime I (fun a files => Assured runtime I Q (f a) files) x files :=
  Routine.assured_bind

theorem assured_permanently (h : Assured runtime I Q x files) :
    Assured runtime I Q (SandboxTools.permanently x) files := by
  refine Routine.assured_tryCatch.mpr (Routine.Assured.mono (fun _ h => h) (fun _ _ h => h) ?_ h)
  intro e t ht
  split
  · exact ht
  · exact ht

/-- What is done without the database. -/
theorem assured_operate {op : SandboxOp} {Q : op.Answer → SandboxFiles → Prop} {a : op.Answer}
    {next : SandboxFiles} (hop : ∀ path call, op ≠ .database path call)
    (hperform : op.perform runtime files = (.ok a, next)) (hI : I files) (hQ : Q a next) :
    Assured runtime I Q (operate op) files := by
  refine Routine.assured_perform.mpr ⟨fun u hstop => ?_, fun r u hends => ?_⟩
  · cases hstop with
    | before => exact hI
    | within path => exact absurd rfl (hop path _)
  · cases hends with
    | performed =>
        rw [hperform]
        exact hQ
    | failed => exact hI
    | called path => exact absurd rfl (hop path _)
    | broken path => exact absurd rfl (hop path _)

/-- A call leaves what is committed on its connection, wherever it is cut off. -/
theorem assured_call {path : String} {call : DatabaseCall} {d : Sql.Database}
    {Q : call.Answer → SandboxFiles → Prop} (hdatabase : files.database = some d) (hI : I files)
    (hscript : Script.Assured (fun next => I { files with database := some next })
      (fun a c => Q a { files with database := some c.committed })
      (Script.connected (call.script runtime)) { committed := d }) :
    Assured runtime I Q (operate (.database path call)) files := by
  obtain ⟨hend, hstop⟩ := Prog.assured_iff.mp hscript
  refine Routine.assured_perform.mpr ⟨fun u hstops => ?_, fun r u hends => ?_⟩
  · cases hstops with
    | before => exact hI
    | within path hother hleaves =>
        obtain ⟨c, hrun, rfl⟩ := hleaves
        obtain rfl := Option.some.inj (hother.symm.trans hdatabase)
        exact hstop c hrun
  · cases hends with
    | performed _ _ hop =>
        rw [hop path call rfl] at hdatabase
        cases hdatabase
    | failed => exact hI
    | @called path call files d' next result hother hleaves =>
        obtain ⟨c, hrun, rfl⟩ := hleaves
        obtain rfl := Option.some.inj (hother.symm.trans hdatabase)
        have hheld := hend result c hrun
        cases result with
        | error e => exact hheld
        | ok a => exact hheld
    | broken path error hother hleaves =>
        obtain ⟨c, hrun, rfl⟩ := hleaves
        obtain rfl := Option.some.inj (hother.symm.trans hdatabase)
        exact hstop c hrun

/-! ## Programs that only read -/

/-- The program leaves the sandbox as it is, whatever it returns. -/
def Looks (x : Sandboxed α) : Prop :=
  ∀ (runtime : Runtime) (I : SandboxFiles → Prop) (Q : α → SandboxFiles → Prop)
    (files : SandboxFiles), I files → (∀ a, Q a files) → Assured runtime I Q x files

variable {f : α → Sandboxed β}

theorem looks_pure (a : α) : Looks (pure a : Sandboxed α) := fun _ _ _ _ _ hQ => hQ a

theorem looks_throw (e : SandboxError) : Looks (throw e : Sandboxed α) := fun _ _ _ _ hI _ => hI

theorem Looks.bind (hx : Looks x) (hf : ∀ a, Looks (f a)) : Looks (x >>= f) :=
  fun runtime I Q files hI hQ => assured_bind.mpr
    (hx runtime I _ files hI fun a => hf a runtime I Q files hI hQ)

theorem looks_ite {p : Prop} [Decidable p] {x y : Sandboxed α} (hx : Looks x) (hy : Looks y) :
    Looks (if p then x else y) := by
  split
  · exact hx
  · exact hy

/-- A check before the rest of a program. -/
theorem Looks.unless {p : Prop} [Decidable p] {e : SandboxError} (hx : Looks x) :
    Looks (if p then (throw e : Sandboxed PUnit) >>= fun _ => x else x) :=
  looks_ite ((looks_throw e).bind fun _ => hx) hx

theorem Looks.tryCatch (hx : Looks x) {handler : SandboxError → Sandboxed α}
    (hhandler : ∀ e, Looks (handler e)) : Looks (MonadExcept.tryCatch x handler) := by
  intro runtime I Q files hI hQ
  refine Routine.assured_tryCatch.mpr (Routine.Assured.mono (fun _ h => ?_) (fun _ _ h => ?_) ?_
    (hx runtime (fun next => next = files) (fun _ next => next = files) files rfl fun _ => rfl))
  · exact h ▸ hI
  · exact h ▸ hQ _
  · rintro e _ rfl
    exact hhandler e runtime I Q _ hI hQ

theorem Looks.permanently (hx : Looks x) : Looks (SandboxTools.permanently x) :=
  fun runtime I Q files hI hQ => assured_permanently (hx runtime I Q files hI hQ)

theorem looks_readState : Looks (operate .readState) :=
  fun _ _ _ _ hI hQ => assured_operate (fun _ _ h => SandboxOp.noConfusion h) rfl hI (hQ _)

/-- A call that only reads. -/
theorem assured_read {path : String} {call : DatabaseCall} {d : Sql.Database}
    {P : call.Answer → Prop} {Q : call.Answer → SandboxFiles → Prop}
    (hdatabase : files.database = some d) (hcall : Script.Tells (call.script runtime) d P)
    (hI : I files) (hQ : ∀ a, P a → Q a files) :
    Assured runtime I Q (operate (.database path call)) files := by
  have hsame (c : Connection) (hc : c.committed = d) :
      { files with database := some c.committed } = files := by rw [hc, ← hdatabase]
  refine assured_call hdatabase hI ?_
  refine Routine.Assured.mono (fun c h => ?_) (fun a c h => ?_) (fun _ c h => ?_)
    (Script.assured_connected (d := d) (I := (· = d)) (Q := fun a c => P a ∧ c.committed = d) rfl
      (hcall _ _ rfl fun a ha => ⟨rfl, ha, rfl⟩))
  · show I { files with database := some c.committed }
    rwa [hsame c h]
  · show Q a { files with database := some c.committed }
    rw [hsame c h.2]
    exact hQ a h.1
  · show I { files with database := some c.committed }
    rwa [hsame c h]

theorem looks_call {path : String} {call : DatabaseCall} (hcall : call.ReadsOnly) :
    Looks (operate (.database path call)) := by
  intro runtime I Q files hI hQ
  cases hdatabase : files.database with
  | some d => exact assured_read hdatabase (hcall.looks.tells d) hI fun a _ => hQ a
  | none =>
      refine Routine.assured_perform.mpr ⟨fun u hstops => ?_, fun r u hends => ?_⟩
      · cases hstops with
        | before => exact hI
        | within path hother =>
            rw [hother] at hdatabase
            cases hdatabase
      · cases hends with
        | performed =>
            rw [SandboxOp.perform, hdatabase]
            exact hI
        | failed => exact hI
        | called path hother =>
            rw [hother] at hdatabase
            cases hdatabase
        | broken path error hother =>
            rw [hother] at hdatabase
            cases hdatabase

section

variable (manager : SandboxManager) (tools : SandboxTools) (sandboxId : String)

theorem looks_sandboxRoot : Looks (manager.sandboxRoot sandboxId) :=
  (looks_pure _).unless

theorem looks_databasePath : Looks (manager.databasePath sandboxId) :=
  (looks_sandboxRoot _ _).bind fun _ => looks_pure _

theorem looks_serviceVersionOf (value : String) : Looks (SandboxManager.serviceVersionOf value) := by
  unfold SandboxManager.serviceVersionOf
  split
  · exact looks_pure _
  · exact looks_throw _

theorem looks_inspect : Looks (manager.inspect sandboxId) := by
  have hstate {path : String} {build : SchemaVersion → List String → String → SandboxState} :
      Looks (do
        let version ← operate (.database path .schemaVersion)
        let ids ← operate (.database path .migrationIds)
        let fingerprint ← operate (.database path .fingerprint)
        return build version ids fingerprint) :=
    (looks_call (by trivial)).bind fun _ => (looks_call (by trivial)).bind fun _ =>
      (looks_call (by trivial)).bind fun _ => looks_pure _
  refine (looks_sandboxRoot _ _).bind fun root => looks_readState.bind fun file => ?_
  cases file with
  | none => exact looks_throw _
  | some payload =>
      refine (looks_serviceVersionOf _).bind fun version => ?_
      exact (looks_call (by trivial)).bind fun storedId => hstate.unless

theorem looks_health : Looks (tools.health sandboxId) :=
  (looks_inspect _ _).bind fun _ => looks_pure _

theorem looks_selectOrders (path : String) : Looks (SandboxTools.selectOrders path) := by
  refine (looks_call (by trivial)).bind fun version => (looks_call (by trivial)).bind fun rows => ?_
  split
  · exact looks_pure _
  · exact looks_throw _

theorem looks_listOrders : Looks (tools.listOrders sandboxId) := by
  have hrest : Looks (do SandboxTools.selectOrders (← tools.databasePath sandboxId)) :=
    (looks_databasePath _ _).bind fun path => looks_selectOrders path
  exact (looks_health _ _).bind fun health => hrest.unless

theorem looks_environmentInspect :
    Looks (SandboxTools.EnvironmentInspectTool.execute tools sandboxId) :=
  (looks_inspect _ _).permanently.bind fun _ => looks_pure _

theorem looks_upgradePrecheck : Looks (SandboxTools.UpgradePrecheckTool.execute tools sandboxId) := by
  refine (looks_environmentInspect _ _).bind fun result => ?_
  split
  · exact (looks_pure _).unless
  · exact looks_pure _

theorem looks_validation (smokeTest : Bool) :
    Looks (SandboxTools.ValidationTool.execute tools sandboxId smokeTest) := by
  refine Looks.bind (Looks.permanently ?_) fun _ => looks_pure _
  refine (looks_inspect _ _).bind fun state => (looks_health _ _).bind fun health => Looks.unless ?_
  refine looks_ite ?_ (looks_pure _)
  exact (looks_listOrders _ _).bind fun orders => Looks.unless (Looks.unless (looks_pure _))

theorem looks_probeLedger (key : String) (version : SchemaVersion) (action summary : String) :
    Looks (tools.probeLedger sandboxId key version action summary) := by
  refine Looks.tryCatch ?_ fun _ => looks_pure _
  refine (looks_databasePath _ _).bind fun path => (looks_call (by trivial)).bind fun migration => ?_
  exact looks_ite ((looks_inspect _ _).bind fun _ => looks_pure _) (looks_pure _)

theorem looks_loadOutput (text : String) : Looks (tools.loadOutput text) := by
  unfold SandboxTools.loadOutput
  split
  · exact looks_pure _
  · exact looks_throw _

theorem looks_probe (call : SandboxTools.Call) : Looks (tools.probe sandboxId call) := by
  cases call with
  | migrate key expected => exact looks_probeLedger _ _ _ _ _ _
  | rollback key => exact looks_probeLedger _ _ _ _ _ _
  | serviceVersion tool key =>
      refine Looks.bind (Looks.tryCatch ?_ fun _ => looks_pure _) fun payload => ?_
      · exact (looks_databasePath _ _).bind fun path => (looks_call (by trivial)).bind fun _ =>
          looks_pure _
      · split
        · exact looks_pure _
        · exact looks_pure _
        · exact (looks_loadOutput _ _).bind fun _ => looks_pure _
  | inspect | precheck | validation => exact looks_pure _

end

end Sandboxed

end ChangePilot
