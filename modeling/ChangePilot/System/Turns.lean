import ChangePilot.System.Candidates
import ChangePilot.System.Submissions

/-!
# A turn that nobody else writes into

`prepareTurn` is a turn up to its prepared attempts, and `dispatchTurn` the rest of it.
While only tools end and the clock is read, the prepared attempts are still those of
ready steps of a run that goes forward when the dispatch begins.
-/

namespace ChangePilot

variable (cfg : Deployment)

/-! ## The attempts of a turn -/

/-- The attempts for the candidates of a turn, or its report. -/
def prepareCandidates (runId : String) (completed : List ExecutionOutcome) :
    CoordinationReport ⊕ Candidates → Activity (CoordinationReport ⊕ List PreparedAttempt)
  | .inl report => return .inl report
  | .inr candidates => do
      if candidates.steps.isEmpty then
        let run ← Activity.getRun runId
        return .inl (blocked runId completed (blockedWithout run candidates.ready
          candidates.availableCapacity candidates.stepRuns))
      match ← tryCatch (some <$> prepareEach cfg runId candidates.steps) fun _ => pure none with
      | none => return .inl (blocked runId completed .internalConsistency)
      | some prepared => return .inr prepared

/-- A turn for the selected run up to its prepared attempts, or to its report. -/
def prepareTurn (runId : String) (run : WorkflowRun) (completed : List ExecutionOutcome)
    (collectionFailed : Bool) : Activity (CoordinationReport ⊕ List PreparedAttempt) :=
  selectTurn cfg runId run completed collectionFailed >>= prepareCandidates cfg runId completed

/-- The rest of the turn. -/
def dispatchTurn (runId : String) (completed : List ExecutionOutcome) :
    CoordinationReport ⊕ List PreparedAttempt → Activity CoordinationReport
  | .inl report => return report
  | .inr prepared => do
      let dispatched ← dispatchEach runId prepared
      dispatchedReport runId completed dispatched

theorem finishTurn_eq (runId : String) (completed : List ExecutionOutcome)
    (selected : CoordinationReport ⊕ Candidates) : finishTurn cfg runId completed selected =
      prepareCandidates cfg runId completed selected >>= dispatchTurn runId completed := by
  cases selected with
  | inl report => rfl
  | inr candidates =>
      simp only [finishTurn, dispatchCandidates, prepareCandidates, Candidates.steps]
      by_cases hempty : (candidates.ready.take candidates.availableCapacity).isEmpty
      · simp only [hempty, if_true, bind_assoc, pure_bind]
        rfl
      · simp only [hempty, if_false, Bool.false_eq_true, bind_assoc]
        refine bind_congr fun prepared => ?_
        cases prepared <;> rfl

/-- A turn prepares its attempts and dispatches them. -/
theorem runSelected_eq_dispatchTurn (runId : String) (run : WorkflowRun)
    (completed : List ExecutionOutcome) (collectionFailed : Bool) :
    runSelected cfg runId (some run) completed collectionFailed =
      prepareTurn cfg runId run completed collectionFailed >>= dispatchTurn runId completed := by
  rw [runSelected_eq, prepareTurn, bind_assoc]
  exact bind_congr fun selected => finishTurn_eq cfg runId completed selected

/-! ## What happens meanwhile -/

/-- An act of the surroundings that writes nothing to the store. -/
inductive Shared.Passes (s : Shared) : Shared → Prop
  | toolDone (id : ℕ) (ending : Except ToolException ToolExecutionResult) :
      s.Passes (s.toolDone id ending)
  | tick (instant : Timestamp) : s.Passes (s.tick instant)

/-- What becomes of the submissions of a turn: those of which steps fail, and the instant
at which that is recorded. -/
structure Submissions where
  fails : String → Bool
  recordedAt : String → Timestamp

/-- The operations, where the submissions fare in this way. -/
def Submissions.exec (submissions : Submissions) :
    (op : Op) → Inputs → Shared → Except Error op.Ans × Shared
  | .dispatch prepared, inputs, s => ChangePilot.exec cfg (.dispatch prepared)
      { inputs with submitFails := submissions.fails prepared.step.id } s
  | .persistSubmissionFailure prepared errorClass, inputs, s =>
      ChangePilot.exec cfg (.persistSubmissionFailure prepared errorClass) inputs
        (s.tick (submissions.recordedAt prepared.step.id))
  | op, inputs, s => ChangePilot.exec cfg op inputs s

/-- The process performs the activity, and nobody else writes to the store meanwhile. -/
abbrev Submissions.Ends {α : Type} (submissions : Submissions) (activity : Activity α) (s : Shared)
    (result : Except Error α) (t : Shared) : Prop :=
  Prog.Interleaved (submissions.exec cfg) (Relation.ReflTransGen Shared.Passes)
    (ExceptT.run activity) s result t

variable {cfg}

namespace Shared

variable {s s' t : Shared} {runId : String}

/-- The same shared state, but for the clock and the tools that have ended. -/
structure Still (s s' : Shared) : Prop where
  store : s'.store = s.store
  inFlight : ∀ runId, s'.inFlight runId = s.inFlight runId
  rely : s.WellFormed → s.Rely s'
  wellFormed : s.WellFormed → s'.WellFormed

theorem Still.refl (s : Shared) : s.Still s := ⟨rfl, fun _ => rfl, fun _ => .refl s, id⟩

theorem Still.trans {a b c : Shared} (hab : a.Still b) (hbc : b.Still c) : a.Still c where
  store := hbc.store.trans hab.store
  inFlight runId := (hbc.inFlight runId).trans (hab.inFlight runId)
  rely ha := (hab.rely ha).trans (hbc.rely (hab.wellFormed ha))
  wellFormed ha := hbc.wellFormed (hab.wellFormed ha)

theorem Passes.still (cfg : Deployment) (h : s.Passes s') (hs : s.WellFormed) : s.Still s' := by
  cases h with
  | toolDone id ending =>
      obtain ⟨hinFlight, hadvances⟩ : (∀ runId, (s.toolDone id ending).inFlight runId =
          s.inFlight runId) ∧ s.Advances cfg .operator (s.toolDone id ending) :=
        toolDone_still hs id ending
      exact ⟨rfl, hinFlight, fun _ => hadvances.rely, hadvances.wellFormed⟩
  | tick instant =>
      exact ⟨rfl, fun _ => rfl, fun _ => tick_rely instant, fun hs => tick_wellFormed hs instant cfg⟩

theorem still_of_passes (cfg : Deployment) (h : Relation.ReflTransGen Passes s s')
    (hs : s.WellFormed) : s.Still s' := by
  induction h with
  | refl => exact .refl s
  | tail _ hpasses ih => exact ih.trans (hpasses.still cfg (ih.wellFormed hs))

theorem Still.view (h : s.Still s') {v : RunView} (hv : s.view runId = some v) :
    s'.view runId = some { v with latest := s'.latest } := by
  obtain ⟨hrecord, hinFlight, _⟩ := view_eq_some_iff.mp hv
  exact view_eq_some_iff.mpr ⟨h.store ▸ hrecord, hinFlight.trans (h.inFlight runId).symm, rfl⟩

end Shared

/-! ## What a turn comes to by itself -/

/-- `P` holds of what the activity comes to, if nobody else writes to the store. -/
def Activity.Alone {α : Type} (cfg : Deployment) (P : α → Shared → Prop) (activity : Activity α)
    (s : Shared) : Prop :=
  Routine.Safe (exec cfg) (fun s s' => s'.store = s.store) (fun _ => True) (fun _ _ => True) P
    activity s

namespace Activity.Alone

variable {α β : Type} {s : Shared} {P : α → Shared → Prop} {Q : β → Shared → Prop}

theorem pure {a : α} (h : P a s) : Activity.Alone cfg P (pure a) s := h

theorem mono {P' : α → Shared → Prop} {activity : Activity α} (h : activity.Alone cfg P s)
    (hP : ∀ a t, P a t → P' a t) : activity.Alone cfg P' s :=
  Routine.Safe.mono hP h

theorem bind {activity : Activity α} {f : α → Activity β} (h : activity.Alone cfg P s)
    (hf : ∀ a t, P a t → (f a).Alone cfg Q t) : (activity >>= f).Alone cfg Q s :=
  Routine.Safe.bind h hf

theorem lift_bind {x : Except Error α} {f : α → Activity β}
    (h : ∀ a, x = .ok a → (f a).Alone cfg Q s) : (Activity.lift x >>= f).Alone cfg Q s := by
  cases x with
  | error e => trivial
  | ok a => exact h a rfl

theorem operation_bind {op : Op} {f : op.Ans → Activity β}
    (h : ∀ t, t.store = s.store → ∀ inputs a, (exec cfg op inputs t).1 = .ok a →
      (f a).Alone cfg Q (exec cfg op inputs t).2) :
    (Activity.operation op >>= f).Alone cfg Q s :=
  Routine.Safe.perform_bind fun t ht _ => ⟨trivial, h t ht⟩

theorem operation {op : Op} {P : op.Ans → Shared → Prop}
    (h : ∀ t, t.store = s.store → ∀ inputs a, (exec cfg op inputs t).1 = .ok a →
      P a (exec cfg op inputs t).2) : (Activity.operation op).Alone cfg P s :=
  Routine.Safe.perform fun t ht _ => ⟨trivial, h t ht⟩

/-- What the activity does before does not matter. -/
theorem after {activity : Activity α} {f : α → Activity β}
    (hf : ∀ a t, (f a).Alone cfg Q t) : (activity >>= f).Alone cfg Q s :=
  Routine.Safe.after (fun _ _ => trivial) hf

end Activity.Alone

/-- The record of the run satisfies `P`. -/
def Shared.Holds (runId : String) (P : RunRecord → Prop) (s : Shared) : Prop :=
  ∃ v, s.store.record runId = some v ∧ P v

/-- The prepared attempts are those of ready steps of a run that goes forward. -/
structure RunRecord.Awaits (v : RunRecord) (attempts : List PreparedAttempt) : Prop where
  forward : v.run.state.Forward
  stocked : v.Stocked
  ready : ∀ prepared ∈ attempts, v.stateOf prepared.step.id = some .ready
  prepared : ∀ prepared ∈ attempts, prepared.attempt.runId = v.run.runId ∧
    prepared.attempt.stepId = prepared.step.id ∧ prepared.attempt.phase = .forward
  distinct : (attempts.map fun prepared => prepared.step.id).Nodup

section

variable {s t : Shared} {runId : String} {P : RunRecord → Prop}

theorem Shared.Holds.of_store (h : s.Holds runId P) (hstore : t.store = s.store) :
    t.Holds runId P := by
  obtain ⟨v, hv, hP⟩ := h
  exact ⟨v, hstore ▸ hv, hP⟩

/-- What has been loaded is complete. -/
theorem Shared.stocked_of_load {definition : WorkflowDefinition} {stepRuns : List StepRun}
    (h : s.loadDefinitionAndSteps runId = .ok (definition, stepRuns)) :
    s.Holds runId fun v => v.definition = definition ∧ v.stepRuns = stepRuns ∧ v.Stocked := by
  obtain ⟨v, hv, rfl, rfl⟩ := sees_of_load h
  obtain ⟨hrecord, -, -⟩ := view_eq_some_iff.mp hv
  refine ⟨v.toRunRecord, hrecord, rfl, rfl, ?_⟩
  have hlength : v.stepRuns.length = v.definition.steps.length := by
    by_contra hne
    simp [loadDefinitionAndSteps, MemoryStore.runs_get_of_record hrecord,
      MemoryStore.definitionOf_of_record hrecord, MemoryStore.stepRuns_of_record hrecord, hne]
      at h
  intro step hstep
  exact List.filterMap_length_eq_length.mp hlength step hstep

/-- The barrier leaves the run alone if it lets the step pass. -/
theorem handleApprovalBarrier_alone (definition : WorkflowDefinition) (step : StepDefinition)
    (h : s.Holds runId P) : (handleApprovalBarrier cfg runId definition step).Alone cfg
      (fun reason t => reason = none → t.Holds runId P) s := by
  unfold handleApprovalBarrier
  refine .lift_bind fun snapshot _ => ?_
  refine .operation_bind fun t₁ ht₁ _ work _ => ?_
  split
  · exact .pure (by simp)
  refine .operation_bind fun t₂ ht₂ _ draining _ => ?_
  split
  · exact .pure (by simp)
  refine .operation_bind fun t₃ ht₃ _ approvals _ => ?_
  have h₃ := ((h.of_store ht₁).of_store ht₂).of_store ht₃
  split
  · exact .pure fun _ => h₃
  · refine @Activity.Alone.operation cfg _ (.establishApprovalBarrier runId step.id) _
      fun t₄ ht₄ inputs answer hanswer => ?_
    rintro rfl
    obtain ⟨v, hv, hP⟩ := h₃.of_store ht₄
    obtain ⟨_, hview⟩ := Shared.admitted_of_barrier (Shared.view_of_record hv) hanswer
    exact ⟨v, (Shared.view_eq_some_iff.mp hview).1, hP⟩

/-- What has been prepared for the steps. -/
theorem prepareEach_alone (steps : List StepDefinition) : ∀ {s : Shared}, s.Holds runId P →
    (prepareEach cfg runId steps).Alone cfg (fun prepared t => t.Holds runId P ∧
      prepared.map PreparedAttempt.step = steps ∧ ∀ p ∈ prepared, p.attempt.runId = runId ∧
        p.attempt.stepId = p.step.id ∧ p.attempt.phase = .forward) s := by
  induction steps with
  | nil => exact fun h => .pure ⟨h, rfl, by simp⟩
  | cons step rest ih =>
      intro s h
      have hfirst : (prepare cfg runId step .forward).Alone cfg (fun prepared t =>
          t.Holds runId P ∧ prepared.step = step ∧ prepared.attempt.runId = runId ∧
            prepared.attempt.stepId = step.id ∧ prepared.attempt.phase = .forward) s := by
        -- preparing reads the attempts, the clock and a new identifier
        refine .operation_bind fun t₁ ht₁ _ attempts _ => ?_
        refine .operation_bind fun t₂ ht₂ _ startedAt _ => ?_
        refine .operation_bind fun t₃ ht₃ _ attemptId _ => ?_
        cases hprepared : prepareAttempt cfg runId step .forward attempts startedAt attemptId with
        | error e => trivial
        | ok prepared =>
            unfold prepareAttempt at hprepared
            split at hprepared
            case h_2 => simp at hprepared
            simp only [Except.bind_eq_ok_iff, Except.pure_eq_ok_iff] at hprepared
            obtain ⟨_, _, _, _, _, _, _, _, _, _, rfl⟩ := hprepared
            -- nothing has been written in between
            exact ⟨((h.of_store ht₁).of_store ht₂).of_store ht₃, rfl, rfl, rfl, rfl⟩
      refine hfirst.bind ?_
      rintro prepared t ⟨ht, hstep, hattempt⟩
      refine (ih ht).bind ?_
      rintro others t' ⟨ht', hothers, hattempts⟩
      refine .pure ⟨ht', ?_, ?_⟩
      · rw [List.map_cons, hothers, hstep]
      · refine List.forall_mem_cons.mpr ⟨?_, hattempts⟩
        rw [hstep]
        exact hattempt

/-- A unit of work that keeps the run keeps it going forward. -/
theorem Shared.Holds.inStore {α : Type} {body : UowM (Exit α)}
    (h : s.Holds runId fun v => v.run.state.Forward)
    (hbody : ∀ v, s.store.record runId = some v → Tx.Ensures body (fun exit staged =>
      match exit with
      | .commit _ => ∃ w, v.Turns staged w ∧ w.run = v.run ∧ w.definition = v.definition
      | .leave _ => True) s.store []) :
    (s.inStore body).2.Holds runId fun v => v.run.state.Forward := by
  obtain ⟨v, hv, hforward⟩ := h
  obtain ⟨w, hw, hrun, _⟩ := inStore_sees (view_of_record hv) (hbody v hv)
  refine ⟨w.toRunRecord, (view_eq_some_iff.mp hw).1, ?_⟩
  show w.run.state.Forward
  rw [hrun]
  exact hforward

/-- The candidates are ready steps of a run that goes forward. -/
def Candidates.Startable (candidates : Candidates) (runId : String) (s : Shared) : Prop :=
  (candidates.ready.map StepDefinition.id).Nodup ∧ s.Holds runId fun v =>
    v.run.state.Forward ∧ v.Stocked ∧
      ∀ step ∈ candidates.ready, v.stateOf step.id = some .ready

theorem selectForward_alone (completed : List ExecutionOutcome)
    (h : s.Holds runId fun v => v.run.state.Forward) :
    (selectForward cfg runId completed).Alone cfg (fun result t =>
      ∀ candidates, result = .inr candidates → candidates.Startable runId t) s := by
  unfold selectForward
  refine .operation_bind fun t₁ ht₁ _ instant _ => ?_
  refine .operation_bind fun t₂ ht₂ inputs₂ _ _ => ?_
  -- promotion moves steps, and leaves the run and its definition
  have h₂ : (exec cfg (.promoteDueRetries runId instant) inputs₂ t₂).2.Holds runId
      fun v => v.run.state.Forward := by
    refine ((h.of_store ht₁).of_store ht₂).inStore fun v hv =>
      (promoteDueRetries_spec hv).mono fun exit staged hexit => ?_
    cases exit with
    | commit =>
        obtain ⟨w, hturns, _, _, rfl, _, _⟩ := hexit
        exact ⟨_, hturns, rfl, rfl⟩
    | leave => trivial
  refine .operation_bind fun t₃ ht₃ inputs₃ _ _ => ?_
  have h₃ : (exec cfg (.promoteDependencyReadySteps runId) inputs₃ t₃).2.Holds runId
      fun v => v.run.state.Forward := by
    refine (h₂.of_store ht₃).inStore fun v hv =>
      (promoteDependencyReadySteps_spec hv).mono fun exit staged hexit => ?_
    cases exit with
    | commit =>
        obtain ⟨w, hturns, _, _, rfl, _, _⟩ := hexit
        exact ⟨_, hturns, rfl, rfl⟩
    | leave => trivial
  refine .operation_bind fun t₄ ht₄ _ loaded hloaded => ?_
  obtain ⟨definition, stepRuns⟩ := loaded
  obtain ⟨v, hv, rfl, rfl, hstocked⟩ := Shared.stocked_of_load hloaded
  obtain ⟨w, hw, hforward⟩ := h₃.of_store ht₄
  obtain rfl := Option.some.inj (hw.symm.trans hv)
  refine .operation_bind fun t₅ ht₅ _ capacity _ => ?_
  have hv₅ : t₅.store.record runId = some w := ht₅ ▸ hv
  have hkeyed := MemoryStore.keyed_of_record hv
  refine .lift_bind fun ready hready => ?_
  have hnodup := nodup_readySteps hready w.definition.ids_nodup
  -- what is ready by the rows that were loaded is ready in the store
  have hstates : ∀ step ∈ ready.filter (fun step => stepStateIs w.stepRuns step.id [.ready]),
      w.stateOf step.id = some .ready := fun step hstep =>
    hkeyed.stateOf_of_stepStateIs (of_decide_eq_true (List.mem_filter.mp hstep).2)
  have hdistinct := hnodup.sublist ((List.filter_sublist (p := fun step : StepDefinition =>
    decide (stepStateIs w.stepRuns step.id [.ready]))).map StepDefinition.id)
  refine .lift_bind fun found hfound => ?_
  obtain ⟨hprotected, _⟩ := findProtected_spec hfound
  -- whether one of the ready steps is protected
  cases found with
  | none =>
      refine .pure fun candidates hcandidates => ?_
      obtain rfl := Sum.inr.inj hcandidates
      exact ⟨hdistinct, w, hv₅, hforward, hstocked, hstates⟩
  | some step =>
      refine (handleApprovalBarrier_alone w.definition step (P := fun v => v = w)
        ⟨w, hv₅, rfl⟩).bind fun reason t ht => ?_
      cases reason with
      | some reason => exact .pure fun _ hreport => by cases hreport
      | none =>
          refine .pure fun candidates hcandidates => ?_
          obtain rfl := Sum.inr.inj hcandidates
          obtain ⟨_, hw', rfl⟩ := ht rfl
          refine ⟨List.nodup_singleton _, _, hw', hforward, hstocked, fun other hother => ?_⟩
          rw [List.mem_singleton.mp hother]
          exact hstates step (hprotected step rfl)

theorem selectTurn_alone {v : RunRecord} (hv : s.store.record runId = some v)
    (completed : List ExecutionOutcome) (collectionFailed : Bool) :
    (selectTurn cfg runId v.run completed collectionFailed).Alone cfg (fun result t =>
      ∀ candidates, result = .inr candidates → candidates.Startable runId t) s :=
  selectTurn_safe completed collectionFailed fun hforward _ ht =>
    selectForward_alone completed ⟨v, ht ▸ hv, hforward⟩

/-- The prepared attempts of a turn are those of ready steps of a run that goes forward. -/
theorem prepareTurn_alone {v : RunRecord} (hv : s.store.record runId = some v)
    (completed : List ExecutionOutcome) (collectionFailed : Bool) :
    (prepareTurn cfg runId v.run completed collectionFailed).Alone cfg (fun result t =>
      ∀ prepared, result = .inr prepared → prepared ≠ [] ∧
        t.Holds runId fun v => v.Awaits prepared) s := by
  refine (selectTurn_alone hv completed collectionFailed).bind fun selected t hselected => ?_
  -- a reported turn prepares nothing
  have reported {report : CoordinationReport} {t : Shared} :
      (pure (.inl report) : Activity (CoordinationReport ⊕ List PreparedAttempt)).Alone cfg
        (fun result t => ∀ prepared, result = .inr prepared → prepared ≠ [] ∧
          t.Holds runId fun v => v.Awaits prepared) t :=
    .pure fun prepared hprepared => by cases hprepared
  cases selected with
  | inl report => exact reported
  | inr candidates =>
      obtain ⟨hdistinct, w, hw, hforward, hstocked, hstates⟩ := hselected candidates rfl
      unfold prepareCandidates
      dsimp only
      split
      · exact .after fun _ _ => reported
      case isFalse hsome =>
        refine Activity.Alone.bind (P := fun prepared t => ∀ attempts, prepared = some attempts →
          attempts ≠ [] ∧ t.Holds runId fun v => v.Awaits attempts) ?_ fun prepared t ht => ?_
        · refine Routine.Safe.tryCatch (Routine.Safe.map ?_) fun _ _ => Activity.Alone.pure (by simp)
          refine (prepareEach_alone candidates.steps (P := fun v => v = w) ⟨w, hw, rfl⟩).mono
            fun prepared t ⟨⟨w', hw', hsame⟩, hsteps, hattempts⟩ => ?_
          subst hsame
          rintro _ ⟨⟩
          -- the prepared attempts are of candidates, each of which is ready
          have hmem (p : PreparedAttempt) (hp : p ∈ prepared) : p.step ∈ candidates.ready :=
            List.mem_of_mem_take (hsteps ▸ List.mem_map_of_mem hp)
          refine ⟨?_, w', hw', hforward, hstocked, fun p hp => hstates _ (hmem p hp),
            fun p hp => ?_, ?_⟩
          · rintro rfl
            exact hsome (by rw [← hsteps]; rfl)
          · rw [MemoryStore.runId_of_record hw']
            exact hattempts p hp
          · have hids : prepared.map (fun p => p.step.id) =
                candidates.steps.map StepDefinition.id := by rw [← hsteps, List.map_map]; rfl
            rw [hids]
            exact hdistinct.sublist ((List.take_sublist _ _).map _)
        · cases prepared with
          | none => exact reported
          | some attempts =>
              refine .pure fun prepared hprepared => ?_
              obtain rfl := Sum.inr.inj hprepared
              exact ht _ rfl

end

/-! ## Where the dispatch begins -/

/-- The submissions do not matter to what an execution is one of. -/
theorem Submissions.Ends.interleaved {submissions : Submissions} {α : Type} {activity : Activity α}
    {s t : Shared} {result : Except Error α} (h : submissions.Ends cfg activity s result t) :
    Prog.Interleaved (ChangePilot.exec cfg) (Relation.ReflTransGen Shared.Passes)
      (ExceptT.run activity) s result t := by
  refine Prog.Interleaved.imp (fun op inputs s s' hacted => ?_) h
  cases op with
  | dispatch prepared => exact ⟨s', _, hacted, rfl⟩
  | persistSubmissionFailure prepared errorClass =>
      exact ⟨_, inputs, hacted.tail (.tick _), rfl⟩
  | _ => exact ⟨s', inputs, hacted, rfl⟩

theorem Reachable.unambiguous {permitted : World → Action → Prop} {w : World}
    (h : Reachable cfg permitted w) : w.shared.store.Unambiguous := by
  induction h with
  | initial instant => rfl
  | step action _ _ ih => exact World.step_unambiguous action ih

/-- The process may go on with the routine from here. -/
structure Shared.Carries {α : Type} (cfg : Deployment) (s : Shared)
    (p : Prog Op (fun op => Except Error op.Ans) (Except Error α)) : Prop where
  wellFormed : s.WellFormed
  unambiguous : s.store.Unambiguous
  safe : Prog.Safe (exec cfg) Shared.Rely Shared.WellFormed (fun op s => op.Enabled cfg s)
    (Routine.Ensures fun _ _ => True) p s

namespace Shared.Carries

variable {α β : Type} {s s' : Shared}
  {p : Prog Op (fun op => Except Error op.Ans) (Except Error α)}

theorem still (h : s.Carries cfg p) (hpassed : Relation.ReflTransGen Passes s s') :
    s'.Carries cfg p := by
  have hstill := still_of_passes cfg hpassed h.wellFormed
  refine ⟨hstill.wellFormed h.wellFormed, hstill.store ▸ h.unambiguous,
    Prog.Safe.stable (fun hab hbc => hab.trans hbc) ?_ h.safe (hstill.rely h.wellFormed)⟩
  rintro (e | a) _ _ _ _ <;> trivial

theorem enabled {op : Op} {k} (h : s.Carries cfg (.call op k : Prog Op _ (Except Error α))) :
    op.Enabled cfg s := (h.safe s (.refl s) h.wellFormed).1

theorem perform {op : Op} {k} (h : s.Carries cfg (.call op k : Prog Op _ (Except Error α)))
    (inputs : Inputs) :
    (exec cfg op inputs s).2.Carries cfg (k (exec cfg op inputs s).1) where
  wellFormed := (exec_advances h.wellFormed op h.enabled inputs).wellFormed h.wellFormed
  unambiguous := Shared.exec_unambiguous op inputs h.unambiguous
  safe := (h.safe s (.refl s) h.wellFormed).2 inputs

theorem of_bind {f : Except Error α → Prog Op (fun op => Except Error op.Ans) (Except Error β)}
    (h : s.Carries cfg (p >>= f)) : s.Carries cfg p := by
  refine ⟨h.wellFormed, h.unambiguous, Prog.Safe.mono ?_ (Prog.Safe.of_bind h.safe)⟩
  rintro (e | a) _ _ <;> trivial

end Shared.Carries

/-- What holds when a turn comes to its dispatch. -/
structure Shared.Dispatches (cfg : Deployment) (runId : String) (prepared : List PreparedAttempt)
    (s : Shared) : Prop where
  carries : s.Carries cfg (ExceptT.run (dispatchEach runId prepared))
  awaits : s.Holds runId fun v => v.Awaits prepared

theorem Reachable.dispatches {w : World} (h : Reachable cfg (fun _ _ => True) w) {runId : String}
    {run : WorkflowRun} (hrun : w.shared.store.runs.get runId = some run)
    {completed : List ExecutionOutcome} {collectionFailed : Bool}
    {prepared : List PreparedAttempt} {s : Shared} {submissions : Submissions}
    (hends : submissions.Ends cfg (prepareTurn cfg runId run completed collectionFailed) w.shared
      (.ok (.inr prepared)) s) : prepared ≠ [] ∧ s.Dispatches cfg runId prepared := by
  obtain ⟨v, hv⟩ := h.good.wellFormed.record_isSome hrun
  obtain rfl := Option.some.inj ((MemoryStore.runs_get_of_record hv).symm.trans hrun)
  have hturn : (prepareTurn cfg runId v.run completed collectionFailed >>=
      dispatchTurn runId completed).Safe cfg (fun _ _ => True) w.shared :=
    runSelected_eq_dispatchTurn cfg runId v.run completed collectionFailed ▸ runSelected_safe
  -- the rest of the turn stays safe on the way to the dispatch
  obtain ⟨hprepared, hrest⟩ := Prog.Safe.interleaved
    (R := fun p s => s.Carries cfg (p >>= ExceptT.bindCont (dispatchTurn runId completed)))
    (fun hp hpassed => ⟨(Shared.still_of_passes cfg hpassed hp.wellFormed).store,
      hp.still hpassed⟩)
    (fun inputs hp => hp.perform inputs) (fun _ => trivial) hends.interleaved
    ⟨h.good.wellFormed, h.unambiguous, hturn⟩ (prepareTurn_alone hv completed collectionFailed)
  obtain ⟨hsome, hawaits⟩ := hprepared prepared rfl
  have hdispatch : s.Carries cfg (ExceptT.run (dispatchEach runId prepared) >>=
    ExceptT.bindCont (dispatchedReport runId completed)) := hrest
  exact ⟨hsome, hdispatch.of_bind, hawaits⟩

end ChangePilot
