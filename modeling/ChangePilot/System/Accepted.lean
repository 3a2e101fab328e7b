import ChangePilot.System.Runs

/-!
# The definitions of runs have been accepted

Every stored definition is one that `from_mapping` has returned for a payload of the run
of the system, so that its steps have what the checks ask for.
-/

namespace ChangePilot

/-! ## What `from_mapping` has checked of each step -/

/-- The tools of an accepted step are registered, and its id and the name and version of
what undoes it say something. -/
structure StepDefinition.Accepted (cfg : Deployment) (step : StepDefinition) : Prop where
  id : cfg.runtime.isBlank step.id = false
  tool : cfg.registry.contains step.tool.name step.tool.version
  compensation : ∀ reference, step.compensationTool = some reference →
    cfg.registry.contains reference.name reference.version
  compensationNamed : ∀ reference, step.compensationTool = some reference →
    cfg.runtime.isBlank reference.name = false ∧ cfg.runtime.isBlank reference.version = false

section

variable {cfg : Deployment}

theorem requireString_eq_ok {stepId : Option String} {field : String} {value : Value}
    {text : String} (h : requireString cfg.runtime stepId field value = .ok text) :
    cfg.runtime.isBlank text = false := by
  unfold requireString at h
  split at h
  · split at h
    · simp at h
    · next hblank =>
        obtain rfl := Except.ok.inj h
        simpa using hblank
  · simp at h

theorem ensureRegistered_eq_ok {stepId field : String} {tool : ToolReference} {u : Unit}
    (h : ensureRegistered cfg.registry stepId field tool = .ok u) :
    cfg.registry.contains tool.name tool.version := by
  unfold ensureRegistered at h
  split at h
  · assumption
  · simp at h

theorem parseToolReference_eq_ok {stepId field : String} {value : Value} {tool : ToolReference}
    (h : parseToolReference cfg.runtime stepId field value = .ok tool) :
    cfg.runtime.isBlank tool.name = false ∧ cfg.runtime.isBlank tool.version = false := by
  simp only [parseToolReference, Except.bind_eq_ok_iff, Except.pure_eq_ok_iff] at h
  obtain ⟨_, _, name, hname, version, hversion, rfl⟩ := h
  exact ⟨requireString_eq_ok hname, requireString_eq_ok hversion⟩

theorem parseOptionalToolReference_eq_ok {stepId : String} {value : Value}
    {result : Option ToolReference}
    (h : parseOptionalToolReference cfg.runtime cfg.registry stepId value = .ok result) :
    ∀ reference, result = some reference →
      cfg.registry.contains reference.name reference.version ∧
        cfg.runtime.isBlank reference.name = false ∧
          cfg.runtime.isBlank reference.version = false := by
  unfold parseOptionalToolReference at h
  split at h
  · obtain rfl := Except.ok.inj h
    simp
  · simp only [Except.bind_eq_ok_iff, Except.pure_eq_ok_iff] at h
    obtain ⟨tool, htool, _, hregistered, rfl⟩ := h
    intro reference hreference
    rw [← Option.some.inj hreference]
    exact ⟨ensureRegistered_eq_ok hregistered, parseToolReference_eq_ok htool⟩

theorem parseStep_accepted {seenIds : List String} {rawStep : Value}
    {step : {step : StepDefinition // step.id ∉ seenIds}}
    (h : parseStep cfg.runtime cfg.registry seenIds rawStep = .ok step) :
    step.val.Accepted cfg := by
  simp only [parseStep, Except.bind_eq_ok_iff] at h
  obtain ⟨mapping, _, stepId, hid, h⟩ := h
  split at h
  · simp at h
  · simp only [Except.bind_eq_ok_iff, Except.pure_eq_ok_iff] at h
    obtain ⟨tool, _, _, htool, _, _, _, _, _, _, _, _, _, _, compensation, hcompensation, rfl⟩ := h
    have hreference := parseOptionalToolReference_eq_ok hcompensation
    exact ⟨requireString_eq_ok hid, ensureRegistered_eq_ok htool,
      fun reference h => (hreference reference h).1, fun reference h => (hreference reference h).2⟩

theorem parseSteps_accepted {rawSteps : List Value} : ∀ {parsed result : ParsedSteps},
    (∀ step ∈ parsed.val, step.Accepted cfg) →
    parseSteps cfg.runtime cfg.registry parsed rawSteps = .ok result →
      ∀ step ∈ result.val, step.Accepted cfg := by
  induction rawSteps with
  | nil =>
      intro parsed result hparsed h
      obtain rfl := Except.ok.inj h
      exact hparsed
  | cons rawStep rest ih =>
      intro parsed result hparsed h
      simp only [parseSteps, Except.bind_eq_ok_iff] at h
      obtain ⟨⟨step, hnew⟩, hstep, h⟩ := h
      refine ih (fun other hother => ?_) h
      rcases List.mem_append.mp hother with hother | hother
      · exact hparsed other hother
      · rw [List.mem_singleton.mp hother]
        exact parseStep_accepted hstep

/-- Every step of a definition that is returned has been accepted. -/
theorem fromMapping_accepted {payload : Value} {definition : WorkflowDefinition}
    (h : WorkflowDefinition.fromMapping cfg.runtime cfg.registry payload = .ok definition) :
    ∀ step ∈ definition.steps, step.Accepted cfg := by
  simp only [WorkflowDefinition.fromMapping, Except.bind_eq_ok_iff] at h
  obtain ⟨mapping, _, definitionId, _, version, _, h⟩ := h
  split at h
  case h_2 => simp at h
  split at h
  · simp [Except.bind_eq_ok_iff] at h
  rw [Except.bind_eq_ok_iff] at h
  obtain ⟨parsed, hparsed, h⟩ := h
  split at h
  · simp [Except.bind_eq_ok_iff] at h
  split at h
  · simp at h
  split at h
  · simp at h
  simp only [Except.bind_eq_ok_iff, Except.pure_eq_ok_iff] at h
  obtain ⟨digest, _, rfl⟩ := h
  intro step hstep
  exact parseSteps_accepted (by simp) hparsed step (mem_sortSteps.mp hstep)

end

/-! ## Where stored definitions come from -/

theorem createRun_definitions (cfg : Deployment) (payload : Value) (runId : String)
    (occurredAt : Timestamp) (store : MemoryStore) :
    Tx.Ensures (WorkflowService.createRun cfg payload runId occurredAt) (fun _ staged =>
      ∀ key definition, (UowM.view store staged).definitions.get key = some definition →
        store.definitions.get key = some definition ∨
          WorkflowDefinition.fromMapping cfg.runtime cfg.registry payload = .ok definition)
      store [] := by
  unfold WorkflowService.createRun WorkflowService.addRun
  simp only [Tx.ensures_bind, Tx.ensures_lift, Tx.ensures_read, Tx.view_nil]
  intro definition hparsed
  have hwrites : creationWrites runId definition occurredAt =
    .addRun (WorkflowService.newRun runId definition) ::
      (definition.steps.map (fun step => .addStep { runId := runId, stepId := step.id }) ++
        [.appendEvent (WorkflowService.createdEvent runId definition occurredAt)]) := rfl
  cases hstored : store.definitions.get
      (definitionKey definition.definitionId definition.version) with
  | none =>
      simp only [Tx.ensures_bind, Tx.ensures_stage, ensures_addSteps, Tx.ensures_pure,
        List.nil_append, List.cons_append]
      rw [← hwrites]
      intro key other hother
      rw [UowM.view, Tx.view_cons, MemoryStore.definitions_view creationWrites_own] at hother
      obtain ⟨hmem, hkey⟩ := (KeyedTable.get_eq_some_iff _).mp hother
      -- the definition is the new one or was there before
      rcases KeyedTable.mem_put.mp hmem with rfl | ⟨hmem, _⟩
      · exact Or.inr hparsed
      · exact Or.inl ((KeyedTable.get_eq_some_iff _).mpr ⟨hmem, hkey⟩)
  | some existing =>
      simp only [Tx.ensures_bind, Tx.ensures_stage, ensures_addSteps, Tx.ensures_pure,
        Tx.ensures_ite, Tx.ensures_throw, imp_true_iff, true_and, List.nil_append,
        List.cons_append]
      intro _
      rw [← hwrites]
      intro key other hother
      rw [MemoryStore.definitions_view creationWrites_own] at hother
      exact Or.inl hother

/-- A definition that a step of the system stores is that of the payload of a new run. -/
theorem World.Good.definitions_step {cfg : Deployment} {w : World} (h : w.Good cfg)
    (action : Action) {key : DefinitionKey} {definition : WorkflowDefinition}
    (hdefinition : (w.step cfg action).shared.store.definitions.get key = some definition) :
    w.shared.store.definitions.get key = some definition ∨
      ∃ payload runId, action = .createRun payload runId ∧
        WorkflowDefinition.fromMapping cfg.runtime cfg.registry payload = .ok definition := by
  have same (hsame : (w.step cfg action).shared.store.definitions = w.shared.store.definitions) :
      w.shared.store.definitions.get key = some definition := by rwa [hsame] at hdefinition
  cases action with
  | runOnce | recover | close => exact Or.inl (same (by simp [World.step, World.call_shared]))
  | proceed inputs => exact Or.inl (same (h.proceed inputs).2.definitions)
  | createRun payload runId =>
      simp only [World.step, World.commit, Shared.inStore] at hdefinition
      cases htransact : w.shared.store.transact
          (WorkflowService.createRun cfg payload runId w.shared.clock) with
      | error e => exact Or.inl (by simpa [htransact] using hdefinition)
      | ok result =>
          rw [htransact] at hdefinition
          have hcommits := (Shared.createRun_vacant cfg payload runId w.shared.clock
            w.shared.store).mono fun _ _ h => h.1
          have horigin := Tx.Ensures.transact_committed hcommits
            (P := fun next => ∀ key definition, next.definitions.get key = some definition →
              w.shared.store.definitions.get key = some definition ∨
                WorkflowDefinition.fromMapping cfg.runtime cfg.registry payload = .ok definition)
            ((createRun_definitions cfg payload runId w.shared.clock w.shared.store).mono
              fun _ _ h _ => h) htransact
          exact (horigin key definition hdefinition).imp_right
            fun hparsed => ⟨payload, runId, rfl, hparsed⟩
  | decide runId requestId decision expectedVersion bindingDigest actor reason =>
      have hadvances : w.shared.Advances cfg .operator
          (w.step cfg (.decide runId requestId decision expectedVersion bindingDigest actor
            reason)).shared := Shared.decide_advances h.wellFormed
      exact Or.inl (same hadvances.definitions)
  | cancelRun runId =>
      have hadvances : w.shared.Advances cfg .operator (w.step cfg (.cancelRun runId)).shared :=
        Shared.cancelRun_advances h.wellFormed
      exact Or.inl (same hadvances.definitions)
  | toolDone | tick | crash => exact Or.inl (same rfl)

namespace Reachable

variable {cfg : Deployment} {permitted : World → Action → Prop} {w : World}

/-- A stored definition was accepted when a run was created of it. -/
theorem definition_accepted (h : Reachable cfg permitted w) {key : DefinitionKey}
    {definition : WorkflowDefinition}
    (hdefinition : w.shared.store.definitions.get key = some definition) :
    ∃ before payload runId, Reachable cfg permitted before ∧
      permitted before (.createRun payload runId) ∧
        WorkflowDefinition.fromMapping cfg.runtime cfg.registry payload = .ok definition := by
  induction h with
  | initial => simp [World.initial, KeyedTable.get, KeyedTable.empty] at hdefinition
  | @step w action h hpermitted ih =>
      rcases h.good.definitions_step action hdefinition with hold | ⟨payload, runId, rfl, hparsed⟩
      · exact ih hold
      · exact ⟨w, payload, runId, h, hpermitted, hparsed⟩

theorem view_accepted (h : Reachable cfg permitted w) {runId : String} {v : RunView}
    (hv : w.shared.view runId = some v) :
    ∃ before payload created, Reachable cfg permitted before ∧
      permitted before (.createRun payload created) ∧
        WorkflowDefinition.fromMapping cfg.runtime cfg.registry payload = .ok v.definition :=
  h.definition_accepted (MemoryStore.definitionOf_of_record (Shared.view_eq_some_iff.mp hv).1)

end Reachable

end ChangePilot
