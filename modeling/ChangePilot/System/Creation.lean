import ChangePilot.System.Accepted

/-!
# What creating a run stores

`create_run` stores a run, a pending row for each step of the parsed definition, and the
definition itself unless one with the same identity and digest is stored already.
-/

namespace ChangePilot

/-- What is in the store after the run of the parsed definition has been created. -/
structure WorkflowService.Stores (runId : String) (definition : WorkflowDefinition)
    (store next : MemoryStore) : Prop where
  run : next.runs.get runId = some (newRun runId definition)
  stored : ∃ stored, next.definitionOf (newRun runId definition) = some stored ∧
    ((store.definitionOf (newRun runId definition) = none ∧ stored = definition) ∨
      (store.definitionOf (newRun runId definition) = some stored ∧
        stored.digest = definition.digest))
  rows : ∀ id, next.getStep runId id =
    if id ∈ definition.steps.map StepDefinition.id then some { runId := runId, stepId := id }
    else store.getStep runId id

theorem MemoryStore.runs_addSteps (runId : String) (steps : List StepDefinition) :
    ∀ store : MemoryStore, (UowM.view store
      (steps.map fun step => .addStep { runId := runId, stepId := step.id })).runs = store.runs := by
  induction steps with
  | nil => exact fun _ => rfl
  | cons step rest ih =>
      intro store
      rw [List.map_cons, UowM.view, Tx.view_cons]
      exact ih _

theorem MemoryStore.getStep_putStep (store : MemoryStore) (row : StepRun) (id : String) :
    (store.putStep row).getStep row.runId id =
      if id = row.stepId then some row else store.getStep row.runId id := by
  have hkey : stepKey row.runId id = row.key ↔ id = row.stepId := by
    simp [StepRun.key, stepKey]
  simp only [getStep, putStep, KeyedTable.get_put, hkey]

/-- The rows of the steps that have been added. -/
theorem MemoryStore.getStep_addSteps (runId id : String) (steps : List StepDefinition) :
    ∀ store : MemoryStore, (UowM.view store
      (steps.map fun step => .addStep { runId := runId, stepId := step.id })).getStep runId id =
        if id ∈ steps.map StepDefinition.id then some { runId := runId, stepId := id }
        else store.getStep runId id := by
  induction steps with
  | nil => exact fun _ => rfl
  | cons step rest ih =>
      intro store
      rw [List.map_cons, UowM.view, Tx.view_cons]
      refine (ih _).trans ?_
      rw [apply_addStep, getStep_putStep store { runId := runId, stepId := step.id } id]
      by_cases hrest : id ∈ rest.map StepDefinition.id
      · simp [hrest]
      · by_cases hid : id = step.id <;> simp [hrest, hid]

/-- What the writes of a creation make of the store. -/
theorem view_creationWrites (store : MemoryStore) (runId : String)
    (definition : WorkflowDefinition) (occurredAt : Timestamp) :
    (UowM.view store (creationWrites runId definition occurredAt)).runs.get runId =
        some (WorkflowService.newRun runId definition) ∧
      (UowM.view store (creationWrites runId definition occurredAt)).definitions =
        store.definitions ∧
      ∀ id, (UowM.view store (creationWrites runId definition occurredAt)).getStep runId id =
        if id ∈ definition.steps.map StepDefinition.id then some { runId := runId, stepId := id }
        else store.getStep runId id := by
  refine ⟨?_, MemoryStore.definitions_view creationWrites_own, fun id => ?_⟩
  · rw [creationWrites, UowM.view, Tx.view_cons, Tx.view_append, MemoryStore.apply_addRun]
    refine (congrArg (fun runs => KeyedTable.get runs runId)
      (MemoryStore.runs_addSteps runId definition.steps _)).trans ?_
    exact KeyedTable.get_put_self _ (WorkflowService.newRun runId definition)
  · rw [creationWrites, UowM.view, Tx.view_cons, Tx.view_append]
    exact MemoryStore.getStep_addSteps runId id definition.steps _

/-- What creating a run stores. -/
theorem createRun_stores (cfg : Deployment) (payload : Value) (runId : String)
    (occurredAt : Timestamp) (store : MemoryStore) :
    Tx.Ensures (WorkflowService.createRun cfg payload runId occurredAt) (fun exit staged =>
      exit.Committed ∧ ∃ definition,
        WorkflowDefinition.fromMapping cfg.runtime cfg.registry payload = .ok definition ∧
          WorkflowService.Stores runId definition store (UowM.view store staged)) store [] := by
  unfold WorkflowService.createRun WorkflowService.addRun
  simp only [Tx.ensures_bind, Tx.ensures_lift, Tx.ensures_read, Tx.view_nil]
  intro definition hparsed
  have hwrites : creationWrites runId definition occurredAt =
    .addRun (WorkflowService.newRun runId definition) ::
      (definition.steps.map (fun step => .addStep { runId := runId, stepId := step.id }) ++
        [.appendEvent (WorkflowService.createdEvent runId definition occurredAt)]) := rfl
  -- the run is bound to the definition itself, or to the one stored before it
  cases hstored : store.definitions.get
      (definitionKey definition.definitionId definition.version) with
  | none =>
      simp only [Tx.ensures_bind, Tx.ensures_stage, ensures_addSteps, Tx.ensures_pure,
        List.nil_append, List.cons_append]
      rw [← hwrites, UowM.view, Tx.view_cons]
      obtain ⟨hrun, hdefinitions, hrows⟩ := view_creationWrites
        (store.apply (.addDefinition definition)) runId definition occurredAt
      refine ⟨trivial, definition, hparsed, hrun, ⟨definition, ?_, Or.inl ⟨hstored, rfl⟩⟩, hrows⟩
      rw [MemoryStore.definitionOf, hdefinitions]
      exact KeyedTable.get_put_self _ definition
  | some existing =>
      simp only [Tx.ensures_bind, Tx.ensures_stage, ensures_addSteps, Tx.ensures_pure,
        Tx.ensures_ite, Tx.ensures_throw, imp_true_iff, true_and, List.nil_append,
        List.cons_append, ne_eq, not_not]
      intro hdigest
      rw [← hwrites]
      obtain ⟨hrun, hdefinitions, hrows⟩ := view_creationWrites store runId definition occurredAt
      refine ⟨trivial, definition, hparsed, hrun, ⟨existing, ?_, Or.inr ⟨hstored, hdigest⟩⟩, hrows⟩
      rw [MemoryStore.definitionOf, hdefinitions]
      exact hstored

/-! ## New runs -/

/-- Moves create no runs. -/
theorem Shared.Advances.view_none {cfg : Deployment} {cause : Cause} {s s' : Shared}
    (h : s.Advances cfg cause s') {runId : String} (hnone : s.view runId = none) :
    s'.view runId = none := by
  rcases h.runs runId with ⟨hagree, hinFlight⟩ | ⟨v, _, hv, _⟩
  · rw [view_congr hagree h.definitions hinFlight h.latest, hnone]
  · simp [hnone] at hv

/-- A run that is there after a step and was not there before has been created of a
payload. -/
theorem World.Good.created_step {cfg : Deployment} {w : World} (h : w.Good cfg) (action : Action)
    {runId : String} (hnone : w.shared.view runId = none) {v : RunView}
    (hv : (w.step cfg action).shared.view runId = some v) :
    ∃ payload definition, action = .createRun payload runId ∧
      WorkflowDefinition.fromMapping cfg.runtime cfg.registry payload = .ok definition ∧
        WorkflowService.Stores runId definition w.shared.store
          (w.step cfg action).shared.store := by
  -- only a creation makes a view out of none
  have stays (hstays : (w.step cfg action).shared.view runId = none) : ∀ P : Prop, P :=
    fun P => absurd (hstays.symm.trans hv) (by simp)
  cases action with
  | runOnce | recover | close =>
      refine stays ?_ _
      rw [World.step, World.call_shared]
      exact hnone
  | proceed inputs => exact stays ((h.proceed inputs).2.view_none hnone) _
  | decide target requestId decision expectedVersion bindingDigest actor reason =>
      have hadvances : w.shared.Advances cfg .operator
          (w.step cfg (.decide target requestId decision expectedVersion bindingDigest actor
            reason)).shared := Shared.decide_advances h.wellFormed
      exact stays (hadvances.view_none hnone) _
  | cancelRun target =>
      have hadvances : w.shared.Advances cfg .operator (w.step cfg (.cancelRun target)).shared :=
        Shared.cancelRun_advances h.wellFormed
      exact stays (hadvances.view_none hnone) _
  | toolDone id ending =>
      have hadvances : w.shared.Advances cfg .operator
          (w.step cfg (.toolDone id ending)).shared := Shared.toolDone_advances h.wellFormed id ending
      exact stays (hadvances.view_none hnone) _
  | tick instant =>
      refine stays ?_ _
      rw [World.step, Shared.view_tick, hnone]
      rfl
  | crash =>
      refine stays ?_ _
      rw [World.step, Shared.crash_view, hnone]
      rfl
  | createRun payload created =>
      obtain ⟨hrecord, _⟩ := Shared.view_eq_some_iff.mp hv
      rcases Shared.createRun_created cfg h.wellFormed payload created w.shared.clock with
        hsame | hcreated
      · exact stays ((congrArg (fun s => Shared.view s runId) hsame).trans hnone) _
      -- and only for the run that it names
      obtain rfl : runId = created := by
        by_contra hne
        have hrun := MemoryStore.runs_get_of_record hrecord
        rw [show (w.step cfg (.createRun payload created)).shared.store.runs.get runId =
          w.shared.store.runs.get runId from (hcreated.others runId hne).run] at hrun
        obtain ⟨record, hbefore⟩ := h.wellFormed.record_isSome hrun
        simp [Shared.view_of_record hbefore] at hnone
      have hvacant := hcreated.vacant
      simp only [World.step, World.commit, Shared.inStore] at hrecord ⊢
      cases htransact : w.shared.store.transact
          (WorkflowService.createRun cfg payload runId w.shared.clock) with
      -- a refused creation stores no run
      | error e =>
          rw [htransact] at hrecord
          simp [MemoryStore.runs_get_of_record hrecord] at hvacant
      | ok result =>
          have hstores := createRun_stores cfg payload runId w.shared.clock w.shared.store
          obtain ⟨definition, hparsed, hstored⟩ := Tx.Ensures.transact_committed
            (hstores.mono fun _ _ h => h.1) (P := fun next => ∃ definition,
              WorkflowDefinition.fromMapping cfg.runtime cfg.registry payload = .ok definition ∧
                WorkflowService.Stores runId definition w.shared.store next)
            (hstores.mono fun _ _ h _ => h.2) htransact
          exact ⟨payload, definition, rfl, hparsed, hstored⟩

end ChangePilot
