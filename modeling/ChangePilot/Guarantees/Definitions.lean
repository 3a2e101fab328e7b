import ChangePilot.Domain.Digests
import ChangePilot.System.Creation
import ChangePilot.System.Sample

/-!
# Definitions, digests and runs

A digest does not depend on the order in which a payload lists steps and dependencies,
and tells everything of a definition but its secrets.  The secrets are therefore those of
the definition that came first when a run is created of another with its digest.
-/

namespace ChangePilot

namespace Sample

/-- A model with one field of any value. -/
def oneValue (name : String) : ModelType where
  modelFields := [name]
  modelValidate payload :=
    match Value.lookup name payload with
    | some value => .ok (.model "OneValue" [(name, value)])
    | none => .error "Field required"

/-- A tool that signs with a key. -/
def signing : Deployment where
  __ := deployment
  runtime := canonicalRuntime
  registry := {
    tools name version :=
      if name = "sign" ∧ version = "1" then some (tool name (oneValue "key") .low .supported)
      else none }

def signStep (id : String) (key : Value) (dependsOn : List Value) : Value :=
  .ofFields [("id", .str id), ("tool", toolPayload "sign"),
    ("arguments", .ofFields [("key", key)]), ("depends_on", .list dependsOn)]

def signPayload (steps : List Value) : Value :=
  .ofFields [("definition_id", .str "d"), ("version", .int 1), ("steps", .list steps)]

/-- The steps of a payload that signs once. -/
def signOnce (name : String) : Value :=
  signPayload [signStep "s" (.secretRef "vault" name) []]

/-- The step that signs with the key of this name. -/
def signedWith (name : String) : StepDefinition where
  id := "s"
  tool := ⟨"sign", "1"⟩
  arguments := .mappingProxy [(.str "key", .secretRef "vault" name)]
  retry := default

/-- What a payload that signs once is accepted as. -/
structure Signs (name : String) (definition : WorkflowDefinition) : Prop where
  parsed : WorkflowDefinition.fromMapping signing.runtime signing.registry (signOnce name) =
    .ok definition
  definitionId : definition.definitionId = "d"
  version : definition.version = 1
  steps : definition.steps = [signedWith name]

theorem exists_signs (name : String) : ∃ definition, Signs name definition :=
  ⟨_, rfl, rfl, rfl, rfl⟩

/-- The one text in which the key is hidden. -/
def hiddenTexts : Set String :=
  {text | signing.runtime.jsonDumps true (.ofFields [("definition_id", .str "d"),
    ("version", .int 1), ("steps", .list [stepToCanonical (signedWith "")])]) = .ok text}

theorem sha256_injOn_hiddenTexts : Set.InjOn signing.runtime.sha256 hiddenTexts :=
  fun _ ha _ hb _ => Except.ok.inj (Eq.trans (Eq.symm ha) hb)

theorem Signs.digested {name : String} {definition : WorkflowDefinition}
    (h : Signs name definition) : definition.Digested signing.runtime hiddenTexts where
  digest := by
    obtain ⟨_, _, _, _, hread⟩ := fromMapping_eq_ok_iff.mp h.parsed
    exact hread.digest
  hasJsonArguments step hstep := by
    rw [h.steps, List.mem_singleton] at hstep
    subst hstep
    refine .mappingProxy (List.nodup_singleton _) ?_ ?_ <;> intro entry hentry <;>
      rw [List.mem_singleton] at hentry <;> subst hentry
    · exact ⟨"key", rfl⟩
    · exact .secretRef "vault" name
  encodedIn text htext := by
    rw [WorkflowDefinition.payload, h.definitionId, h.version, h.steps] at htext
    exact htext

/-- The digest hides the key. -/
theorem Signs.digest_eq {name name' : String} {first second : WorkflowDefinition}
    (hfirst : Signs name first) (hsecond : Signs name' second) : first.digest = second.digest := by
  have hdigest := hfirst.digested.digest
  have hdigest' := hsecond.digested.digest
  rw [hfirst.definitionId, hfirst.version, hfirst.steps] at hdigest
  rw [hsecond.definitionId, hsecond.version, hsecond.steps] at hdigest'
  exact Except.ok.inj (hdigest.symm.trans hdigest')

/-- A definition that lists its steps in another order, and a dependency twice. -/
theorem rearranged : PayloadRearranged
    (signPayload [signStep "a" .none [], signStep "b" .none [.str "a"]])
    (signPayload [signStep "b" .none [.str "a", .str "a"], signStep "a" .none []]) := by
  have hsteps : StepsRearranged (.list [signStep "a" .none [], signStep "b" .none [.str "a"]])
      (.list [signStep "b" .none [.str "a", .str "a"], signStep "a" .none []]) := by
    refine .list (List.Perm.swap _ _ _) (.cons (.dict ?_) (.cons (.refl _) .nil))
    refine .cons ⟨rfl, .inl rfl⟩ (.cons ⟨rfl, .inl rfl⟩ (.cons ⟨rfl, .inl rfl⟩ (.cons ?_ .nil)))
    exact ⟨rfl, .inr ⟨rfl, .list (by simp)⟩⟩
  exact .dict (.cons ⟨rfl, .inl rfl⟩ (.cons ⟨rfl, .inl rfl⟩ (.cons ⟨rfl, .inr ⟨rfl, hsteps⟩⟩ .nil)))

end Sample

/-- Rearranging the steps and dependencies of a payload changes nothing, and definitions
with one digest are equal once their secrets are hidden. -/
theorem definitions_are_canonical (runtime : Runtime) {floatText : PyFloat → String}
    (hjson : runtime.DumpsJson floatText) {texts : Set String}
    (hsha256 : Set.InjOn runtime.sha256 texts) :
    (∀ (registry : ToolRegistry) (payload payload' : Value), PayloadRearranged payload payload' →
      ∀ definition, WorkflowDefinition.fromMapping runtime registry payload = .ok definition ↔
        WorkflowDefinition.fromMapping runtime registry payload' = .ok definition) ∧
    ∀ (registry registry' : ToolRegistry) (payload payload' : Value)
      (first second : WorkflowDefinition),
      WorkflowDefinition.fromMapping runtime registry payload = .ok first →
      WorkflowDefinition.fromMapping runtime registry' payload' = .ok second →
      first.HasJsonArguments → second.HasJsonArguments →
      first.EncodedIn runtime texts → second.EncodedIn runtime texts →
      first.digest = second.digest → first.withoutSecrets.Equals second.withoutSecrets := by
  refine ⟨fun registry payload payload' hsame definition => ?_, ?_⟩
  · exact ⟨fromMapping_rearranged hsame, fromMapping_rearranged hsame.symm⟩
  · intro registry registry' payload payload' first second hfirst hsecond hfirstJson hsecondJson
      hfirstIn hsecondIn hdigest
    obtain ⟨_, _, _, _, hread⟩ := fromMapping_eq_ok_iff.mp hfirst
    obtain ⟨_, _, _, _, hread'⟩ := fromMapping_eq_ok_iff.mp hsecond
    exact WorkflowDefinition.equals_of_digest_eq hjson hsha256
      ⟨hread.digest, hfirstJson, hfirstIn⟩ ⟨hread'.digest, hsecondJson, hsecondIn⟩ hdigest

/-- Two steps in either order, and two keys under one digest. -/
theorem definitions_are_canonical_signing :
    (∀ definition, WorkflowDefinition.fromMapping Sample.signing.runtime Sample.signing.registry
        (Sample.signPayload [Sample.signStep "a" .none [], Sample.signStep "b" .none [.str "a"]]) =
          .ok definition ↔
      WorkflowDefinition.fromMapping Sample.signing.runtime Sample.signing.registry
        (Sample.signPayload [Sample.signStep "b" .none [.str "a", .str "a"],
          Sample.signStep "a" .none []]) = .ok definition) ∧
    ∃ first second, Sample.Signs "old" first ∧ Sample.Signs "new" second ∧
      first.withoutSecrets.Equals second.withoutSecrets := by
  have h := definitions_are_canonical Sample.signing.runtime Sample.canonicalRuntime_dumpsJson
    Sample.sha256_injOn_hiddenTexts
  obtain ⟨first, hfirst⟩ := Sample.exists_signs "old"
  obtain ⟨second, hsecond⟩ := Sample.exists_signs "new"
  refine ⟨h.1 _ _ _ Sample.rearranged, first, second, hfirst, hsecond, ?_⟩
  exact h.2 _ _ _ _ _ _ hfirst.parsed hsecond.parsed hfirst.digested.hasJsonArguments
    hsecond.digested.hasJsonArguments hfirst.digested.encodedIn hsecond.digested.encodedIn
    (hfirst.digest_eq hsecond)

/-! ## The definition of a run -/

/-- The definitions in the store were accepted, of JSON arguments. -/
def MemoryStore.HoldsAccepted (cfg : Deployment) (texts : Set String) (store : MemoryStore) :
    Prop :=
  ∀ stored ∈ store.definitions.rows, stored.HasJsonArguments ∧ stored.EncodedIn cfg.runtime texts ∧
    ∃ payload, WorkflowDefinition.fromMapping cfg.runtime cfg.registry payload = .ok stored

/-- What a run is bound to once it has been created of `definition`. -/
structure Shared.Binds (runId : String) (definition : WorkflowDefinition) (s : Shared) :
    Prop where
  executed : ∃ run executed, s.store.runs.get runId = some run ∧
    s.store.definitionOf run = some executed ∧ executed.Equals definition
  rows : ∀ step ∈ definition.steps,
    s.store.getStep runId step.id = some { runId := runId, stepId := step.id }

/-- No definition in the store has the identity and digest of this one but other secrets. -/
def MemoryStore.KeepsSecrets (definition : WorkflowDefinition) (store : MemoryStore) : Prop :=
  ∀ stored ∈ store.definitions.rows, stored.definitionId = definition.definitionId →
    stored.version = definition.version → stored.digest = definition.digest →
      List.Forall₂ (fun step other => step.arguments.SameSecrets other.arguments)
        stored.steps definition.steps

section

variable {cfg : Deployment} {texts : Set String}

theorem digested_of_accepted {payload : Value} {definition : WorkflowDefinition}
    (h : WorkflowDefinition.fromMapping cfg.runtime cfg.registry payload = .ok definition)
    (hjson : definition.HasJsonArguments) (hencoded : definition.EncodedIn cfg.runtime texts) :
    definition.Digested cfg.runtime texts := by
  obtain ⟨_, _, _, _, hread⟩ := fromMapping_eq_ok_iff.mp h
  exact ⟨hread.digest, hjson, hencoded⟩

/-- What a creation that succeeds has stored. -/
theorem Shared.createRun_stores {s s' : Shared} {payload : Value} {runId : String}
    (h : s.inStore (WorkflowService.createRun cfg payload runId s.clock) = (.ok (), s')) :
    ∃ definition, WorkflowDefinition.fromMapping cfg.runtime cfg.registry payload =
      .ok definition ∧ WorkflowService.Stores runId definition s.store s'.store := by
  unfold inStore at h
  cases htransact : s.store.transact (WorkflowService.createRun cfg payload runId s.clock) with
  | error error =>
      rw [htransact] at h
      cases h
  | ok result =>
      rw [htransact] at h
      have hstores := ChangePilot.createRun_stores cfg payload runId s.clock s.store
      have hresult := Tx.Ensures.transact_committed
        (hstores.mono fun _ _ h => h.1) (P := fun next => ∃ definition,
          WorkflowDefinition.fromMapping cfg.runtime cfg.registry payload = .ok definition ∧
            WorkflowService.Stores runId definition s.store next)
        (hstores.mono fun _ _ h _ => h.2) htransact
      exact (Prod.mk.inj h).2 ▸ hresult

/-- A run is bound to its payload unless an earlier definition has other secrets. -/
theorem Shared.createRun_binds_iff {floatText : PyFloat → String}
    (hjson : cfg.runtime.DumpsJson floatText) (hsha256 : Set.InjOn cfg.runtime.sha256 texts)
    {s s' : Shared} (hstore : s.store.HoldsAccepted cfg texts) {runId : String}
    {definition : WorkflowDefinition} (hdefinition : definition.Digested cfg.runtime texts)
    (hstores : WorkflowService.Stores runId definition s.store s'.store) :
    s'.Binds runId definition ↔ s.store.KeepsSecrets definition := by
  obtain ⟨executed, hexecuted, hwhich⟩ := hstores.stored
  have hrows : ∀ step ∈ definition.steps,
      s'.store.getStep runId step.id = some { runId := runId, stepId := step.id } := by
    intro step hstep
    rw [hstores.rows, if_pos (List.mem_map_of_mem hstep)]
  -- the run executes the definition it is bound to
  have hbinds : s'.Binds runId definition ↔ executed.Equals definition := by
    refine ⟨fun h => ?_, fun h => ⟨⟨_, executed, hstores.run, hexecuted, h⟩, hrows⟩⟩
    obtain ⟨run, other, hrun, hother, hequals⟩ := h.executed
    obtain rfl := Option.some.inj (hstores.run.symm.trans hrun)
    obtain rfl := Option.some.inj (hexecuted.symm.trans hother)
    exact hequals
  have hfound (stored : WorkflowDefinition) :
      s.store.definitionOf (WorkflowService.newRun runId definition) = some stored ↔
        stored ∈ s.store.definitions.rows ∧ stored.definitionId = definition.definitionId ∧
          stored.version = definition.version := by
    rw [MemoryStore.definitionOf, KeyedTable.get_eq_some_iff]
    refine and_congr_right fun _ => ?_
    show definitionKey stored.definitionId stored.version =
      definitionKey definition.definitionId definition.version ↔ _
    simp [definitionKey]
  rw [hbinds]
  rcases hwhich with ⟨hnone, rfl⟩ | ⟨hstored, hdigest⟩
  · refine iff_of_true ?_ fun stored hmem hid hversion _ => ?_
    · exact ⟨rfl, rfl, List.forall₂_same.mpr fun _ _ => ⟨rfl, rfl, .refl _, rfl, rfl, rfl, rfl⟩, rfl⟩
    · rw [(hfound stored).mpr ⟨hmem, hid, hversion⟩] at hnone
      cases hnone
  · obtain ⟨hmem, hid, hversion⟩ := (hfound executed).mp hstored
    obtain ⟨hstoredJson, hstoredIn, payload, hpayload⟩ := hstore executed hmem
    rw [WorkflowDefinition.equals_iff_sameSecrets hjson hsha256
      (digested_of_accepted hpayload hstoredJson hstoredIn) hdefinition hdigest]
    refine ⟨fun h stored hmem' hid' hversion' _ => ?_, fun h => h executed hmem hid hversion hdigest⟩
    have hsame := (hfound stored).mpr ⟨hmem', hid', hversion'⟩
    exact Option.some.inj (hstored.symm.trans hsame) ▸ h

end

/-- With the store in memory, a creation that fails leaves everything as it is; one that
succeeds binds the run to the definition of its payload if and only if no definition in the
store has the same digest but other secrets. -/
theorem created_run_is_bound (cfg : Deployment) {floatText : PyFloat → String}
    (hjson : cfg.runtime.DumpsJson floatText) {texts : Set String}
    (hsha256 : Set.InjOn cfg.runtime.sha256 texts) {s : Shared}
    (hstore : s.store.HoldsAccepted cfg texts) (payload : Value) (runId : String) :
    (∀ error s', s.inStore (WorkflowService.createRun cfg payload runId s.clock) =
      (.error error, s') → s' = s) ∧
    ∀ s', s.inStore (WorkflowService.createRun cfg payload runId s.clock) = (.ok (), s') →
      ∃ definition, WorkflowDefinition.fromMapping cfg.runtime cfg.registry payload =
        .ok definition ∧ (definition.HasJsonArguments → definition.EncodedIn cfg.runtime texts →
          (s'.Binds runId definition ↔ s.store.KeepsSecrets definition)) := by
  refine ⟨fun error s' h => ?_, fun s' h => ?_⟩
  · unfold Shared.inStore at h
    split at h
    · exact (Prod.mk.inj h).2.symm
    · cases h
  · obtain ⟨definition, hparsed, hstores⟩ := Shared.createRun_stores h
    exact ⟨definition, hparsed, fun hjsonArguments hencoded =>
      Shared.createRun_binds_iff hjson hsha256 hstore
        (digested_of_accepted hparsed hjsonArguments hencoded) hstores⟩

namespace Sample

/-- What creating a run of this payload comes to. -/
def creating (s : Shared) (name runId : String) : Except Error Unit × Shared :=
  s.inStore (WorkflowService.createRun signing (signOnce name) runId s.clock)

/-- The state after a run has been created that signs with this key. -/
def signedOnce (name : String) : Shared := (creating (World.after signing 0 []).shared name "r").2

theorem definitions_signedOnce : ∃ definition, Signs "old" definition ∧
    (signedOnce "old").store.definitions.rows = [definition] := by
  obtain ⟨definition, hsigns⟩ := exists_signs "old"
  refine ⟨definition, hsigns, ?_⟩
  have hcreate : WorkflowService.createRun signing (signOnce "old") "r" 0 =
      WorkflowService.addRun "r" definition 0 := by
    unfold WorkflowService.createRun
    rw [hsigns.parsed]
    rfl
  show ((World.after signing 0 []).shared.inStore
    (WorkflowService.createRun signing (signOnce "old") "r" 0)).2.store.definitions.rows = _
  rw [hcreate]
  obtain ⟨_, hid, hversion, hsteps⟩ := hsigns
  cases definition
  obtain rfl := hid
  obtain rfl := hversion
  obtain rfl := hsteps
  rfl

theorem holdsAccepted_signedOnce : (signedOnce "old").store.HoldsAccepted signing hiddenTexts := by
  obtain ⟨definition, hsigns, hrows⟩ := definitions_signedOnce
  intro stored hstored
  rw [hrows, List.mem_singleton] at hstored
  subst hstored
  exact ⟨hsigns.digested.hasJsonArguments, hsigns.digested.encodedIn, _, hsigns.parsed⟩

/-- A second run of the payload, or of the one with the other key, is created. -/
theorem exists_creating {name : String} (hname : name ∈ ["old", "new"]) : ∃ s,
    (signedOnce "old").inStore (WorkflowService.createRun signing (signOnce name) "r2"
      (signedOnce "old").clock) = (.ok (), s) := by
  have hok : (creating (signedOnce "old") name "r2").1.isOk := by
    rcases List.mem_pair.mp hname with rfl | rfl <;> decide +kernel
  show ∃ s, creating (signedOnce "old") name "r2" = (.ok (), s)
  generalize creating (signedOnce "old") name "r2" = outcome at hok
  obtain ⟨result, s⟩ := outcome
  cases result with
  | error error => cases hok
  | ok u => exact ⟨s, rfl⟩

end Sample

/-- The second run of a payload executes what that payload says. -/
theorem created_run_is_bound_again : ∃ s definition, Sample.Signs "old" definition ∧
    (Sample.signedOnce "old").inStore (WorkflowService.createRun Sample.signing
      (Sample.signOnce "old") "r2" (Sample.signedOnce "old").clock) = (.ok (), s) ∧
    s.Binds "r2" definition := by
  obtain ⟨s, hs⟩ := Sample.exists_creating (show "old" ∈ ["old", "new"] by decide)
  have h := created_run_is_bound Sample.signing Sample.canonicalRuntime_dumpsJson
    Sample.sha256_injOn_hiddenTexts Sample.holdsAccepted_signedOnce (Sample.signOnce "old") "r2"
  obtain ⟨definition, hparsed, hiff⟩ := h.2 s hs
  obtain ⟨stored, hsigns, hrows⟩ := Sample.definitions_signedOnce
  obtain rfl : stored = definition := Except.ok.inj (hsigns.parsed.symm.trans hparsed)
  refine ⟨s, stored, hsigns, hs, ?_⟩
  refine (hiff hsigns.digested.hasJsonArguments hsigns.digested.encodedIn).mpr ?_
  intro other hother _ _ _
  rw [hrows, List.mem_singleton] at hother
  exact hother ▸ List.forall₂_same.mpr fun _ _ _ => rfl

/-- A run is created of a payload that names another key than an earlier one, and signs
with the earlier key. -/
theorem earlier_key_is_used : ∃ s definition, Sample.Signs "new" definition ∧
    (Sample.signedOnce "old").inStore (WorkflowService.createRun Sample.signing
      (Sample.signOnce "new") "r2" (Sample.signedOnce "old").clock) = (.ok (), s) ∧
    ¬ s.Binds "r2" definition := by
  obtain ⟨s, hs⟩ := Sample.exists_creating (show "new" ∈ ["old", "new"] by decide)
  obtain ⟨definition, hparsed, hstores⟩ := Shared.createRun_stores hs
  obtain ⟨other, hsigns⟩ := Sample.exists_signs "new"
  obtain rfl : other = definition := Except.ok.inj (hsigns.parsed.symm.trans hparsed)
  refine ⟨s, other, hsigns, hs, fun hbinds => ?_⟩
  obtain ⟨stored, hstored, hrows⟩ := Sample.definitions_signedOnce
  have hkeeps := (Shared.createRun_binds_iff Sample.canonicalRuntime_dumpsJson
    Sample.sha256_injOn_hiddenTexts Sample.holdsAccepted_signedOnce hsigns.digested hstores).mp hbinds
  have hsecrets := hkeeps stored (hrows ▸ List.mem_singleton_self _)
    (hstored.definitionId.trans hsigns.definitionId.symm)
    (hstored.version.trans hsigns.version.symm) (hstored.digest_eq hsigns)
  rw [hstored.steps, hsigns.steps, List.forall₂_cons] at hsecrets
  have hkey := hsecrets.1 [.key "key"]
  exact absurd hkey (by decide)

end ChangePilot
