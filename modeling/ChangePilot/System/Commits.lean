import ChangePilot.System.Creation
import ChangePilot.System.Promotion

/-!
# What a step of the system commits

A step of the system commits one unit of work of the coordinator, of recovery or of an
operator, or leaves the store as it is.  What each unit of work keeps is therefore kept by
every run of the system, in whatever order the steps are made.
-/

namespace ChangePilot

/-- The units of work of a run that exists. -/
inductive UnitOf (cfg : Deployment) (runId : String) : {α : Type} → UowM (Exit α) → Prop
  | cancelRun (occurredAt : Timestamp) :
      UnitOf cfg runId (WorkflowService.cancelRun runId occurredAt)
  | decide (requestId : String) (decision : ApprovalDecision) (expectedVersion : ℤ)
      (bindingDigest actor reason : String) (occurredAt : Timestamp) :
      UnitOf cfg runId (ApprovalService.decide cfg.runtime runId requestId decision
        expectedVersion bindingDigest actor reason occurredAt)
  | promoteDueRetries (now occurredAt : Timestamp) :
      UnitOf cfg runId (ChangePilot.promoteDueRetries runId now occurredAt)
  | promoteDependencyReadySteps (occurredAt : Timestamp) :
      UnitOf cfg runId (ChangePilot.promoteDependencyReadySteps runId occurredAt)
  | establishApprovalBarrier (ownedFutures : List OwnedFuture) (stepId newId : String)
      (occurredAt : Timestamp) :
      UnitOf cfg runId
        (ChangePilot.establishApprovalBarrier cfg ownedFutures runId stepId newId occurredAt)
  | commitAttemptStarted (attempt : StepAttempt) (hrun : attempt.runId = runId) :
      UnitOf cfg runId (ChangePilot.commitAttemptStarted attempt)
  | persistOutcome (outcome : ExecutionOutcome) (completedAt : Timestamp)
      (sensitivePaths : List (List String)) (hrun : outcome.runId = runId) :
      UnitOf cfg runId (ChangePilot.persistOutcome cfg outcome completedAt sensitivePaths)
  | completeCompensation (occurredAt : Timestamp) :
      UnitOf cfg runId (ChangePilot.completeCompensation runId occurredAt)
  | recoverAttempt (answers : ProbeAnswers) (stepId : String) (expected : StepAttempt)
      (occurredAt : Timestamp) :
      UnitOf cfg runId (ChangePilot.recoverAttempt cfg answers runId stepId expected occurredAt)

/-- The store is left as it is, or a run is created, or one unit of work is committed. -/
inductive MemoryStore.Commits (cfg : Deployment) (store : MemoryStore) : MemoryStore → Prop
  | unchanged : Commits cfg store store
  | created (payload : Value) (runId : String) (occurredAt : Timestamp) {next : MemoryStore}
      (htransact : store.transact (WorkflowService.createRun cfg payload runId occurredAt) =
        .ok ((), next)) : Commits cfg store next
  | committed {runId : String} {α : Type} {body : UowM (Exit α)} {a : α} {next : MemoryStore}
      (hunit : UnitOf cfg runId body) (htransact : store.transact body = .ok (a, next)) :
      Commits cfg store next

namespace Shared

variable {cfg : Deployment} {s : Shared} {runId : String}

theorem inStore_commits {α : Type} {body : UowM (Exit α)} (h : UnitOf cfg runId body) :
    s.store.Commits cfg (s.inStore body).2.store := by
  unfold inStore
  cases htransact : s.store.transact body with
  | error error => exact .unchanged
  | ok result => exact .committed h htransact

theorem recordOutcome_commits (s : Shared) (outcome : ExecutionOutcome)
    (sensitivePaths : List (List String)) :
    s.store.Commits cfg (s.recordOutcome cfg outcome sensitivePaths).2.store := by
  unfold recordOutcome
  cases htransact : s.store.transact (persistOutcome cfg outcome s.clock sensitivePaths) with
  | error error => exact .unchanged
  | ok result =>
      dsimp only
      rw [rememberUnknown_store]
      exact .committed (.persistOutcome outcome s.clock sensitivePaths rfl) htransact

theorem collectFuture_commits (id : ℕ) (now : Timestamp) :
    s.store.Commits cfg (s.collectFuture cfg id now).2.store := by
  unfold collectFuture
  cases s.findOwned id with
  | none => exact .unchanged
  | some owned =>
      dsimp only
      split
      · split <;> exact .unchanged
      · cases collectedOutcome owned now with
        | none => exact .unchanged
        | some outcome =>
            dsimp only
            have hrecorded : s.store.Commits cfg _ :=
              recordOutcome_commits s outcome owned.sensitivePaths
            split <;> rename_i heq <;> rw [heq] at hrecorded
            · exact hrecorded
            · rw [store_settle]
              exact hrecorded

theorem closeFuture_commits (id : ℕ) (cancelSucceeds : Bool) :
    s.store.Commits cfg (s.closeFuture cfg id cancelSucceeds).2.store := by
  unfold closeFuture
  cases s.findOwned id with
  | none => exact .unchanged
  | some owned =>
      dsimp only
      split
      · exact .unchanged
      · have hrecorded : s.store.Commits cfg _ :=
          recordOutcome_commits (s.updateOwned id fun _ => (closingOutcome owned cancelSucceeds).1)
            (closingOutcome owned cancelSucceeds).2 owned.sensitivePaths
        split <;> rename_i heq <;> rw [heq] at hrecorded
        · exact hrecorded
        · rw [store_settle]
          exact hrecorded

theorem dispatch_commits (prepared : PreparedAttempt) (submitFails : Bool) :
    s.store.Commits cfg (s.dispatch prepared submitFails).2.store := by
  have hcommitted : s.store.Commits cfg _ :=
    inStore_commits (.commitAttemptStarted prepared.attempt rfl)
  unfold dispatch
  split <;> rename_i heq <;> rw [heq] at hcommitted
  · exact hcommitted
  · cases submitFails <;> exact hcommitted

theorem exec_commits (op : Op) (inputs : Inputs) :
    s.store.Commits cfg (exec cfg op inputs s).2.store := by
  cases op with
  | collectFuture id now => exact collectFuture_commits id now
  | closeFuture id => exact closeFuture_commits id inputs.cancelSucceeds
  | dispatch prepared => exact dispatch_commits prepared inputs.submitFails
  | persistSubmissionFailure => exact recordOutcome_commits _ _ _
  | promoteDueRetries runId now => exact inStore_commits (.promoteDueRetries now s.clock)
  | promoteDependencyReadySteps => exact inStore_commits (.promoteDependencyReadySteps s.clock)
  | establishApprovalBarrier =>
      exact inStore_commits (.establishApprovalBarrier _ _ inputs.newId s.clock)
  | completeCompensation => exact inStore_commits (.completeCompensation s.clock)
  | recoverAttempt => exact inStore_commits (.recoverAttempt inputs.answers _ _ s.clock)
  | _ => exact .unchanged

end Shared

theorem World.step_commits (cfg : Deployment) (w : World) (action : Action) :
    w.shared.store.Commits cfg (w.step cfg action).shared.store := by
  cases action with
  | runOnce | recover | close =>
      simp only [World.step, World.call_shared]
      exact .unchanged
  | proceed inputs =>
      unfold World.step World.proceed
      cases w.thread with
      | ret => exact .unchanged
      | call op k => exact Shared.exec_commits op inputs
  | createRun payload runId =>
      simp only [World.step, World.commit, Shared.inStore]
      split
      case h_1 => exact .unchanged
      case h_2 htransact => exact .created payload runId w.shared.clock htransact
  | decide => exact Shared.inStore_commits (.decide _ _ _ _ _ _ w.shared.clock)
  | cancelRun => exact Shared.inStore_commits (.cancelRun w.shared.clock)
  | toolDone | tick | crash => exact .unchanged

/-! ## New runs -/

/-- A run that has just been created. -/
structure RunRecord.Fresh (v : RunRecord) : Prop where
  run : (v.run.state, v.run.revision) = (.pending, 0)
  steps : ∀ id row, v.steps id = some row → (row.state, row.revision) = (.pending, 0)
  attempts : v.attempts.rows = []
  approvals : v.approvals.rows = []
  events : ∃ definition occurredAt,
    v.events = [WorkflowService.createdEvent v.run.runId definition occurredAt]

namespace MemoryStore

theorem events_addSteps (runId : String) (steps : List StepDefinition) : ∀ store : MemoryStore,
    (UowM.view store (steps.map fun step => .addStep { runId := runId, stepId := step.id })).events =
      store.events := by
  induction steps with
  | nil => exact fun _ => rfl
  | cons step rest ih =>
      intro store
      rw [List.map_cons, UowM.view, Tx.view_cons]
      exact ih _

/-- The creation of a run is the one event that it appends. -/
theorem events_creationWrites (store : MemoryStore) (runId : String)
    (definition : WorkflowDefinition) (occurredAt : Timestamp) :
    ((UowM.view store (creationWrites runId definition occurredAt)).events runId).map
        SequencedEvent.event = (store.events runId).map SequencedEvent.event ++
          [WorkflowService.createdEvent runId definition occurredAt] := by
  rw [creationWrites, UowM.view, Tx.view_cons, Tx.view_append, apply_addRun]
  have hevents := congrFun (events_addSteps runId definition.steps
    (store.putRun (WorkflowService.newRun runId definition))) runId
  have hlast (store : MemoryStore) (event : AuditEvent) :
      (store.appendEvent event).events event.runId =
        store.events event.runId ++ [⟨store.eventSequences event.runId + 1, event⟩] :=
    Function.update_self ..
  refine (congrArg (List.map SequencedEvent.event) (hlast _
    (WorkflowService.createdEvent runId definition occurredAt))).trans ?_
  rw [List.map_append]
  exact congrArg (· ++ _) (congrArg (List.map SequencedEvent.event) hevents)

theorem createRun_logs (cfg : Deployment) (payload : Value) (runId : String)
    (occurredAt : Timestamp) (store : MemoryStore) :
    Tx.Ensures (WorkflowService.createRun cfg payload runId occurredAt) (fun exit staged =>
      exit.Committed ∧ ∃ definition, ((UowM.view store staged).events runId).map
          SequencedEvent.event = (store.events runId).map SequencedEvent.event ++
            [WorkflowService.createdEvent runId definition occurredAt]) store [] := by
  unfold WorkflowService.createRun WorkflowService.addRun
  simp only [Tx.ensures_bind, Tx.ensures_lift, Tx.ensures_read, Tx.view_nil]
  intro definition _
  split
  · simp only [Tx.ensures_bind, Tx.ensures_stage, ensures_addSteps, Tx.ensures_pure]
    exact ⟨trivial, definition, events_creationWrites (store.apply (.addDefinition definition))
      runId definition occurredAt⟩
  · simp only [Tx.ensures_bind, Tx.ensures_stage, ensures_addSteps, Tx.ensures_pure,
      Tx.ensures_ite, Tx.ensures_throw, imp_true_iff, true_and]
    exact fun _ => ⟨trivial, definition, events_creationWrites store runId definition occurredAt⟩

end MemoryStore

namespace Shared

variable {cfg : Deployment} {s : Shared}

/-- Creating a run adds a fresh one, and leaves the others as they are. -/
theorem createRun_fresh (hs : s.WellFormed) {payload : Value} {runId : String}
    {occurredAt : Timestamp} {next : MemoryStore}
    (htransact : s.store.transact (WorkflowService.createRun cfg payload runId occurredAt) =
      .ok ((), next)) {other : String} {v : RunRecord} (hv : next.record other = some v) :
    s.store.record other = some v ∨ (s.store.record other = none ∧ v.Fresh) := by
  have hcreated : ({ s with store := next } : Shared) = s ∨
      s.Created runId { s with store := next } := by
    have h := createRun_created cfg hs payload runId occurredAt
    rwa [inStore_of_transact htransact] at h
  -- a refused creation leaves the store as it was
  rcases hcreated with hsame | hcreated
  · exact Or.inl ((congrArg (fun s => s.store.record other) hsame).symm.trans hv)
  -- the new run, or one that was there before
  by_cases hother : other = runId
  · subst hother
    right
    obtain ⟨hvacant, _⟩ := hs.vacant other hcreated.vacant
    obtain ⟨w, hw, hinitial⟩ := hcreated.own
    obtain rfl : w = v := Option.some.inj (hw.symm.trans hv)
    -- its rows are those of the definition, all of them pending
    have hstores := createRun_stores cfg payload other occurredAt s.store
    obtain ⟨definition, _, hrun, _, hrows⟩ := Tx.Ensures.transact_committed
      (hstores.mono fun _ _ h => h.1) (P := fun next => ∃ definition,
        WorkflowDefinition.fromMapping cfg.runtime cfg.registry payload = .ok definition ∧
          WorkflowService.Stores other definition s.store next)
      (hstores.mono fun _ _ h _ => h.2) htransact
    -- its log is the one event of its creation
    have hlogs := MemoryStore.createRun_logs cfg payload other occurredAt s.store
    obtain ⟨definition', hlog⟩ := Tx.Ensures.transact_committed
      (hlogs.mono fun _ _ h => h.1) (P := fun next => ∃ definition,
        (next.events other).map SequencedEvent.event =
          (s.store.events other).map SequencedEvent.event ++
            [WorkflowService.createdEvent other definition occurredAt])
      (hlogs.mono fun _ _ h _ => h.2) htransact
    have hnew : w.run = WorkflowService.newRun other definition :=
      Option.some.inj ((MemoryStore.runs_get_of_record hw).symm.trans hrun)
    refine ⟨by rw [MemoryStore.record, hcreated.vacant]; rfl, by rw [hnew]; rfl,
      fun id row hrow => ?_, hinitial.attempts, hinitial.approvals, definition', occurredAt, ?_⟩
    · rw [← MemoryStore.getStep_of_record hw, hrows id] at hrow
      split at hrow
      · obtain rfl := Option.some.inj hrow
        rfl
      · rw [hvacant.steps] at hrow
        cases hrow
    · rw [← (MemoryStore.record_eq_some_iff.mp hw).2.2.2.2.2, hlog, hvacant.events,
        MemoryStore.runId_of_record hw]
      rfl
  · left
    cases hrun : s.store.runs.get other with
    | none =>
        have hnext := MemoryStore.runs_get_of_record hv
        rw [(hcreated.others other hother).run, hrun] at hnext
        cases hnext
    | some run =>
        obtain ⟨w, hw⟩ := hs.record_isSome hrun
        have hview := (view_eq_some_iff.mp (hcreated.view (view_of_record hw))).1
        rwa [← Option.some.inj (hview.symm.trans hv)]

end Shared

/-! ## Induction over what is committed -/

/-- A unit of work of a run that is not there commits nothing. -/
theorem ensures_leave_of_missing {cfg : Deployment} {runId : String} {α : Type} {body : UowM (Exit α)}
    (h : UnitOf cfg runId body) {store : MemoryStore} (hnone : store.runs.get runId = none) :
    Tx.Ensures body (fun exit _ => ∃ a, exit = .leave a) store [] := by
  cases h with
  | decide requestId decision expectedVersion bindingDigest actor reason occurredAt =>
      unfold ApprovalService.decide
      simp only [Tx.ensures_bind, Tx.ensures_read, Tx.ensures_require, Tx.view_nil]
      -- the request that is found is one of the run
      intro request hrequest run hrun
      have hrunId : request.runId = runId := congrArg (fun key => (ofLex key).1)
        ((KeyedTable.get_eq_some_iff _).mp hrequest).2
      rw [hrunId, hnone] at hrun
      cases hrun
  | commitAttemptStarted attempt hrun => simp [commitAttemptStarted, hrun, hnone]
  | persistOutcome outcome completedAt sensitivePaths hrun =>
      simp [persistOutcome, hrun, hnone]
  | cancelRun => simp [WorkflowService.cancelRun, hnone]
  | promoteDueRetries => simp [promoteDueRetries, hnone]
  | promoteDependencyReadySteps => simp [promoteDependencyReadySteps, hnone]
  | establishApprovalBarrier => simp [establishApprovalBarrier, hnone]
  | completeCompensation => simp [completeCompensation, hnone]
  | recoverAttempt => simp [recoverAttempt, hnone]

/-- What the unit of work commits turns the record of its run in the way `M`. -/
def UowM.Turns {α : Type} (M : RunRecord → RunRecord → Prop) (runId : String)
    (body : UowM (Exit α)) : Prop :=
  ∀ (base : MemoryStore) (v : RunRecord), base.record runId = some v →
    Tx.Ensures body (fun exit staged => match exit with
      | .commit _ => validate staged base = .ok () → ∃ w, v.Turns staged w ∧ M v w
      | .leave _ => True) base []

namespace Reachable

variable {cfg : Deployment} {permitted : World → Action → Prop} {w : World}

/-- What commits keep holds of the store in every reachable state. -/
theorem store_induction {P : MemoryStore → Prop} (hempty : P {})
    (hcommit : ∀ {α : Type} (body : UowM (Exit α)) (store next : MemoryStore) (a : α),
      P store → store.transact body = .ok (a, next) → P next)
    (h : Reachable cfg permitted w) : P w.shared.store := by
  induction h with
  | initial instant => exact hempty
  | @step w action _ _ ih =>
      generalize hnext : (w.step cfg action).shared.store = next
      cases hnext ▸ w.step_commits cfg action with
      | unchanged => exact ih
      | created payload runId occurredAt htransact => exact hcommit _ _ _ _ ih htransact
      | committed _ htransact => exact hcommit _ _ _ _ ih htransact

/-- A run that is there after a step has been turned by it, or stays as it is, or is fresh. -/
theorem record_step (h : Reachable cfg permitted w) {M : RunRecord → RunRecord → Prop}
    (hturns : ∀ {runId : String} {α : Type} {body : UowM (Exit α)}, UnitOf cfg runId body →
      body.Turns M runId)
    (action : Action) {runId : String} {v : RunRecord}
    (hv : (w.step cfg action).shared.store.record runId = some v) :
    (∃ u, w.shared.store.record runId = some u ∧ (v = u ∨ M u v)) ∨
      (w.shared.store.record runId = none ∧ v.Fresh) := by
  have hs := h.good.wellFormed
  generalize hnext : (w.step cfg action).shared.store = next at hv
  cases hnext ▸ w.step_commits cfg action with
  | unchanged => exact Or.inl ⟨v, hv, Or.inl rfl⟩
  | created payload created occurredAt htransact =>
      exact (Shared.createRun_fresh hs htransact hv).imp_left fun hsame => ⟨v, hsame, Or.inl rfl⟩
  | @committed unitRun _ _ _ _ hunit htransact =>
      left
      rcases MemoryStore.transact_turned True (fun _ => hs.record_isSome)
        (fun hnone => (ensures_leave_of_missing hunit hnone).mono fun _ _ h => ⟨trivial, h⟩)
        (hturns hunit _) htransact with ⟨_, rfl⟩ | hturned
      · exact ⟨v, hv, Or.inl rfl⟩
      by_cases hother : runId = unitRun
      · subst hother
        obtain ⟨u, u', hu, hu', hM⟩ := hturned.own
        obtain rfl := Option.some.inj (hu'.symm.trans hv)
        exact ⟨u, hu, Or.inr hM⟩
      · rw [(hturned.others runId hother).record_eq hturned.definitions] at hv
        exact ⟨v, hv, Or.inl rfl⟩

/-- What holds of fresh runs, and what every unit of work keeps of its run, holds of every
run in every reachable state. -/
theorem record_induction {I : RunRecord → Prop} (hfresh : ∀ v : RunRecord, v.Fresh → I v)
    {M : RunRecord → RunRecord → Prop} (hkept : ∀ v v', M v v' → I v → I v')
    (hturns : ∀ {runId : String} {α : Type} {body : UowM (Exit α)}, UnitOf cfg runId body →
      body.Turns M runId)
    (h : Reachable cfg permitted w) {runId : String} {v : RunRecord}
    (hv : w.shared.store.record runId = some v) : I v := by
  induction h generalizing runId v with
  | initial instant => cases hv
  | @step w action hreachable _ ih =>
      rcases hreachable.record_step hturns action hv with ⟨u, hu, rfl | hM⟩ | ⟨_, hnew⟩
      · exact ih hu
      · exact hkept u v hM (ih hu)
      · exact hfresh v hnew

/-- What every unit of work makes of its run, in one step after another, holds between the
records of a run now and later. -/
theorem record_later {M : RunRecord → RunRecord → Prop} (hrefl : ∀ v, M v v)
    (htrans : ∀ u v w, M u v → M v w → M u w)
    (hturns : ∀ {runId : String} {α : Type} {body : UowM (Exit α)}, UnitOf cfg runId body →
      body.Turns M runId) (later : List Action) :
    ∀ {w : World}, Reachable cfg (fun _ _ => True) w → ∀ {runId : String} {v : RunRecord},
      w.shared.store.record runId = some v → ∃ v',
        (later.foldl (World.step cfg) w).shared.store.record runId = some v' ∧ M v v' := by
  induction later with
  | nil => exact fun _ _ v hv => ⟨v, hv, hrefl v⟩
  | cons action rest ih =>
      intro w h runId v hv
      obtain ⟨next, hnext, _⟩ := (h.good.step action).2.views runId _ (Shared.view_of_record hv)
      have hrecord := (Shared.view_eq_some_iff.mp hnext).1
      obtain ⟨final, hfinal, hM⟩ := ih (h.step action trivial) hrecord
      refine ⟨final, hfinal, ?_⟩
      rcases h.record_step hturns action hrecord with ⟨u, hu, hstep⟩ | ⟨hnone, _⟩
      · obtain rfl := Option.some.inj (hu.symm.trans hv)
        rcases hstep with hsame | hstep
        · exact hsame ▸ hM
        · exact htrans _ _ _ hstep hM
      · rw [hv] at hnone
        cases hnone

end Reachable

end ChangePilot
