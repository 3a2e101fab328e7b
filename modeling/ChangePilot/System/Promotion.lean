import ChangePilot.System.Progress
import Mathlib.Data.List.Dedup

/-!
# Promotion succeeds

The units of work that promote steps end without an error in every state of the
system, and afterwards no pending step has all its dependencies behind it.

What they look up is there because every step of an accepted definition has a row
(`Stocked`), and what they stage is committed because it fits the store
(`validate_of_fits`).  A run that goes forward, is not busy and has been promoted therefore
has a step that can start (`RunView.exists_canStart`): the first one that has not succeeded.
-/

namespace ChangePilot

/-! ## Ready steps of a run -/

namespace RunRecord

variable {v : RunRecord}

theorem stepRuns_cons (hkeyed : v.Keyed) {steps : List StepDefinition}
    (hstocked : ∀ step ∈ steps, (v.steps step.id).isSome) :
    (steps.filterMap fun step => v.steps step.id).map StepRun.stepId =
      steps.map StepDefinition.id := by
  induction steps with
  | nil => rfl
  | cons step rest ih =>
      obtain ⟨hstep, hrest⟩ := List.forall_mem_cons.mp hstocked
      obtain ⟨row, hrow⟩ := Option.isSome_iff_exists.mp hstep
      simp only [List.filterMap_cons, hrow, List.map_cons, ih hrest, (hkeyed.step hrow).1]

/-- The rows of a run are those of its steps. -/
theorem Stocked.stepIds (hstocked : v.Stocked) (hkeyed : v.Keyed) :
    v.stepRuns.map StepRun.stepId = v.definition.steps.map StepDefinition.id :=
  stepRuns_cons hkeyed hstocked

theorem Stocked.idsMatch (hstocked : v.Stocked) (hkeyed : v.Keyed) :
    idsMatch v.definition v.stepRuns := by
  have hids := hstocked.stepIds hkeyed
  refine ⟨fun row hrow => ?_, fun step hstep => ?_⟩
  · rw [← hids]
    exact List.mem_map_of_mem hrow
  · rw [hids]
    exact List.mem_map_of_mem hstep

/-- `ready_steps` accepts the rows of a run that has steps. -/
theorem Stocked.readySteps_isOk (hstocked : v.Stocked) (hkeyed : v.Keyed)
    (hsteps : v.definition.steps ≠ []) :
    ∃ ready, readySteps v.definition v.stepRuns = .ok ready := by
  have hids := hstocked.stepIds hkeyed
  have hnodup : (v.stepRuns.map StepRun.stepId).Nodup := hids ▸ v.definition.ids_nodup
  have hmatch := hstocked.idsMatch hkeyed
  have hone : (v.stepRuns.map StepRun.runId).dedup.length = 1 := by
    have hsame : ∀ runId ∈ v.stepRuns.map StepRun.runId, runId = v.run.runId := by
      intro runId hrunId
      obtain ⟨row, hrow, rfl⟩ := List.mem_map.mp hrunId
      obtain ⟨_, _, hstep⟩ := mem_stepRuns.mp hrow
      exact (hkeyed.step hstep).2
    have hne : v.stepRuns ≠ [] := by
      intro hnil
      rw [hnil] at hids
      exact hsteps (List.map_eq_nil_iff.mp hids.symm)
    have hlength : (v.stepRuns.map StepRun.runId).length ≠ 0 := by
      rwa [List.length_map, ne_eq, List.length_eq_zero_iff]
    rw [List.eq_replicate_of_mem hsame, List.replicate_dedup hlength, List.length_singleton]
  exact ⟨_, by rw [readySteps, if_neg (not_not.mpr hnodup), if_neg (not_not.mpr hmatch),
    if_neg (not_not.mpr hone)]⟩

theorem Keyed.stepStateIs_iff_mem (hkeyed : v.Keyed) {step : StepDefinition}
    (hstep : step ∈ v.definition.steps) {states : List StepState} :
    stepStateIs v.stepRuns step.id states ↔ ∃ state ∈ states, v.stateOf step.id = some state := by
  rw [stepStateIs, hkeyed.stepRunById hstep]
  cases hrow : v.steps step.id <;> simp [stateOf, hrow]

theorem Keyed.isReady_iff (hkeyed : v.Keyed) {step : StepDefinition}
    (hstep : step ∈ v.definition.steps) :
    isReady v.stepRuns step ↔
      (v.stateOf step.id = some .pending ∨ v.stateOf step.id = some .ready) ∧
        ∀ d ∈ step.dependsOn, v.stateOf d = some .succeeded := by
  have hdependency (d : String) (hd : d ∈ step.dependsOn) :
      stepStateIs v.stepRuns d [.succeeded] ↔ v.stateOf d = some .succeeded := by
    obtain ⟨other, hother, rfl⟩ := v.definition.dependencies_known step hstep d hd
    exact hkeyed.stepStateIs_iff hother
  rw [isReady, hkeyed.stepStateIs_iff_mem hstep]
  simp only [List.mem_cons, List.not_mem_nil, or_false, exists_eq_or_imp, exists_eq_left]
  exact and_congr_right fun _ => forall₂_congr hdependency

end RunRecord

/-! ## The writes of a promotion -/

/-- The rows of the steps that are still pending. -/
def RunRecord.pendingRows (v : RunRecord) (steps : List StepDefinition) : List StepRun :=
  (steps.filterMap fun step => v.steps step.id).filter fun row => row.state = .pending

/-- What is staged for the rows. -/
def promotions (occurredAt : Timestamp) (rows : List StepRun) : List Write :=
  rows.flatMap fun row =>
    [.saveStep (row.moved .ready) row.revision, .appendEvent (row.movedEvent .ready occurredAt)]

/-- The row that the loop finds is that of the step. -/
theorem RunRecord.Keyed.find_stepRuns {v : RunRecord} (hkeyed : v.Keyed) {step : StepDefinition}
    (hstep : step ∈ v.definition.steps) :
    v.stepRuns.find? (fun row => row.stepId = step.id) = v.steps step.id := by
  cases hfind : v.stepRuns.find? fun row => row.stepId = step.id with
  | none =>
      simp only [List.find?_eq_none, decide_eq_true_eq] at hfind
      cases hrow : v.steps step.id with
      | none => rfl
      | some row =>
          exact absurd (hkeyed.step hrow).1 (hfind row (mem_stepRuns.mpr ⟨step, hstep, hrow⟩))
  | some row =>
      have hid : row.stepId = step.id := by simpa using List.find?_some hfind
      rw [← hid, hkeyed.steps_of_mem_stepRuns (List.mem_of_find?_eq_some hfind)]

theorem returns_saveStep {base : MemoryStore} {staged : List Write} {row : StepRun}
    {expected : ℕ} {Q : Unit → List Write → Prop} (hrevision : row.revision = expected + 1)
    (h : Q () (staged ++ [.saveStep row expected])) :
    Tx.Returns (UowM.saveStep row expected) Q base staged := by
  rw [UowM.saveStep, if_neg (not_not.mpr hrevision)]
  exact Tx.returns_stage h

theorem promotePendingSteps_returns (base : MemoryStore) (occurredAt : Timestamp) {v : RunRecord}
    (hkeyed : v.Keyed) (hstocked : v.Stocked) (steps : List StepDefinition)
    (hsteps : steps ⊆ v.definition.steps) : ∀ staged : List Write,
      Tx.Returns (promotePendingSteps v.stepRuns occurredAt steps) (fun changed final =>
        final = staged ++ promotions occurredAt (v.pendingRows steps) ∧
          (changed = false → v.pendingRows steps = [])) base staged := by
  induction steps with
  | nil => exact fun staged => Tx.returns_pure ⟨(List.append_nil staged).symm, fun _ => rfl⟩
  | cons step rest ih =>
      intro staged
      obtain ⟨hstep, hrest⟩ := List.cons_subset.mp hsteps
      obtain ⟨row, hrow⟩ := Option.isSome_iff_exists.mp (hstocked step hstep)
      rw [promotePendingSteps]
      -- the row is there, so the lookup cannot raise
      refine Tx.returns_bind (Tx.returns_require ((hkeyed.find_stepRuns hstep).trans hrow) ?_)
      -- a pending row is promoted, and that is one more change
      by_cases hstate : row.state = .pending
      · have hrows : v.pendingRows (step :: rest) = row :: v.pendingRows rest := by
          simp [RunRecord.pendingRows, hrow, hstate]
        rw [if_neg (not_not.mpr hstate), hrows]
        have htransition : row.transition .ready occurredAt =
            .ok (row.moved .ready, row.movedEvent .ready occurredAt) :=
          StepRun.transition_eq_ok_iff.mpr ⟨by simp [hstate, stepTransitions], rfl, rfl⟩
        refine Tx.returns_bind <| Tx.returns_lift htransition <| Tx.returns_bind <|
          returns_saveStep rfl <| Tx.returns_bind <| Tx.returns_stage <|
          Tx.returns_bind <| (ih hrest _).mono ?_
        rintro changed final ⟨rfl, _⟩
        refine Tx.returns_pure ⟨?_, fun h => by cases h⟩
        simp only [promotions, List.flatMap_cons, List.append_assoc, List.cons_append,
          List.nil_append]
      · have hrows : v.pendingRows (step :: rest) = v.pendingRows rest := by
          simp [RunRecord.pendingRows, hrow, hstate]
        rw [if_pos hstate, hrows]
        exact ih hrest staged

/-- What the writes make of the rows. -/
theorem RunRecord.foldl_promotions (occurredAt : Timestamp) (rows : List StepRun) (id : String) :
    ∀ w : RunRecord, ((promotions occurredAt rows).foldl RunRecord.apply w).stateOf id =
      if id ∈ rows.map StepRun.stepId then some .ready else w.stateOf id := by
  induction rows with
  | nil => exact fun _ => rfl
  | cons row rest ih =>
      intro w
      rw [promotions, List.flatMap_cons, List.foldl_append]
      refine (ih _).trans ?_
      by_cases hrest : id ∈ rest.map StepRun.stepId
      · simp [hrest]
      · by_cases hid : id = row.stepId <;> simp [hrest, hid, stateOf]

/-! ## Validation -/

/-- What holds after a loop held before it or was brought about by one of its turns. -/
theorem foldl_origin {σ W : Type} {f : σ → W → σ} {P : σ → Prop} {R : W → Prop}
    (h : ∀ s w, P (f s w) → P s ∨ R w) (ws : List W) :
    ∀ s, P (ws.foldl f s) → P s ∨ ∃ w ∈ ws, R w := by
  induction ws with
  | nil => exact fun _ hend => Or.inl hend
  | cons w rest ih =>
      intro s hend
      rcases ih _ hend with hfirst | ⟨other, hother, hR⟩
      · exact (h s w hfirst).imp_right fun hR => ⟨w, List.mem_cons_self, hR⟩
      · exact Or.inr ⟨other, List.mem_cons_of_mem _ hother, hR⟩

/-- An expected revision is that of a save. -/
theorem mem_expectedRevisions {K : Type} [DecidableEq K] {added : Write → Option K}
    {saved : Write → Option (K × ℕ)} {writes : List Write} {expected : K × ℕ}
    (h : expected ∈ expectedRevisions added saved writes) :
    ∃ write ∈ writes, saved write = some expected := by
  refine (foldl_origin (P := fun state : List K × List (K × ℕ) => expected ∈ state.2)
    (R := fun write => saved write = some expected) (fun state write hstep => ?_) writes _ h).resolve_left
      List.not_mem_nil
  split at hstep
  case h_1 => exact Or.inl hstep
  case h_2 hsaved =>
    split at hstep
    · exact Or.inl hstep
    · rcases List.mem_append.mp hstep with hold | hnew
      · exact Or.inl hold
      · exact Or.inr (List.mem_singleton.mp hnew ▸ hsaved)
  case h_3 => exact Or.inl hstep

/-- A write that the checks of the commit let pass: what it adds is new, and what it saves
has the revision that the store has. -/
inductive MemoryStore.Fits (store : MemoryStore) : Write → Prop
  | saveRun {run : WorkflowRun} {expected : ℕ}
      (h : (store.runs.get run.runId).map WorkflowRun.revision = some expected) :
      Fits store (.saveRun run expected)
  | saveStep {row : StepRun} {expected : ℕ}
      (h : (store.steps.get row.key).map StepRun.revision = some expected) :
      Fits store (.saveStep row expected)
  | addAttempt {attempt : StepAttempt} (h : store.attempts.get attempt.key = none) :
      Fits store (.addAttempt attempt)
  | saveAttempt (attempt : StepAttempt) : Fits store (.saveAttempt attempt)
  | appendEvent (event : AuditEvent) : Fits store (.appendEvent event)

theorem MemoryStore.approvals_view {store : MemoryStore} {writes : List Write}
    (h : ∀ write ∈ writes, store.Fits write) : ∀ other : MemoryStore,
      (UowM.view other writes).approvals = other.approvals := by
  induction writes with
  | nil => exact fun _ => rfl
  | cons write rest ih =>
      intro other
      obtain ⟨hwrite, hrest⟩ := List.forall_mem_cons.mp h
      rw [UowM.view, Tx.view_cons]
      refine (ih hrest _).trans ?_
      cases hwrite <;> rfl

/-- Such writes pass the checks of the commit together. -/
theorem validate_of_fits {store : MemoryStore} {writes : List Write}
    (hwrites : ∀ write ∈ writes, store.Fits write)
    (hpending : duplicatePendingRun store = none) : validate writes store = .ok () := by
  -- nothing the unit adds is stored already
  have hfailures : ((List.range 5).flatMap fun table =>
      (writes.filter fun write => write.table = table).filterMap (Write.uniqueness store)) = [] := by
    simp only [List.flatMap_eq_nil_iff, List.filterMap_eq_nil_iff, List.mem_filter]
    rintro table _ write ⟨hwrite, _⟩
    cases hwrites write hwrite with
    | addAttempt hnew => simp only [Write.uniqueness, hnew, Option.map_none]
    | saveRun | saveStep | saveAttempt | appendEvent => rfl
  have hsame : duplicatePendingRun (Tx.view MemoryStore.apply store writes) = none := by
    rw [duplicatePendingRun, pendingRuns, MemoryStore.approvals_view hwrites store]
    exact hpending
  -- every kind of row is saved at the revision that it has
  have hrevisions {K : Type} [DecidableEq K] {added : Write → Option K}
      {saved : Write → Option (K × ℕ)} {check : K × ℕ → Except Error Unit}
      (hcheck : ∀ write ∈ writes, ∀ pair, saved write = some pair → check pair = .ok ()) :
      (expectedRevisions added saved writes).forM check = .ok () := by
    refine Except.forM_eq_ok_iff.mpr fun pair hpair => ?_
    obtain ⟨write, hwrite, hsaved⟩ := mem_expectedRevisions hpair
    exact hcheck write hwrite pair hsaved
  have hunique : validateUniqueness writes store = .ok () := by
    simp only [validateUniqueness, hfailures, hsame]
  have hrevised : validateRevisions writes store = .ok () := by
    refine Except.bind_unit_eq_ok_iff.mpr ⟨hrevisions fun write hwrite pair hsaved => ?_,
      Except.bind_unit_eq_ok_iff.mpr ⟨hrevisions fun write hwrite pair hsaved => ?_,
        hrevisions fun write hwrite pair hsaved => ?_⟩⟩
    · cases hwrites write hwrite with
      | saveRun hrevision =>
          obtain rfl := Option.some.inj hsaved
          exact if_pos hrevision
      | saveStep | addAttempt | saveAttempt | appendEvent => cases hsaved
    · cases hwrites write hwrite with
      | saveStep hrevision =>
          obtain rfl := Option.some.inj hsaved
          exact if_pos hrevision
      | saveRun | addAttempt | saveAttempt | appendEvent => cases hsaved
    · cases hwrites write hwrite <;> cases hsaved
  exact Except.bind_unit_eq_ok_iff.mpr ⟨hunique, hrevised⟩

/-! ## Promotion as a whole -/

/-- No pending step has all its dependencies behind it. -/
def RunRecord.Promoted (v : RunRecord) : Prop :=
  ∀ step ∈ v.definition.steps, (∀ d ∈ step.dependsOn, v.stateOf d = some .succeeded) →
    v.stateOf step.id ≠ some .pending

section

variable {base : MemoryStore} {v : RunRecord} {runId : String}

theorem fits_promotions {occurredAt : Timestamp} (hrecord : base.record runId = some v)
    {steps : List StepDefinition} :
    ∀ write ∈ promotions occurredAt (v.pendingRows steps), base.Fits write := by
  have hkeyed := MemoryStore.keyed_of_record hrecord
  intro write hwrite
  obtain ⟨row, hrow, hwrite⟩ := List.mem_flatMap.mp hwrite
  obtain ⟨step, _, hstep⟩ := List.mem_filterMap.mp (List.mem_filter.mp hrow).1
  rcases List.mem_pair.mp hwrite with rfl | rfl
  · obtain ⟨hid, hrunId⟩ := hkeyed.step hstep
    have hget : base.getStep runId step.id = some row :=
      (MemoryStore.getStep_of_record hrecord step.id).trans hstep
    refine .saveStep ?_
    rw [MemoryStore.getStep, ← hid, ← MemoryStore.runId_of_record hrecord, ← hrunId] at hget
    exact congrArg _ hget
  · exact .appendEvent _

/-- Once the ready steps that were pending are ready, nothing is left to promote. -/
theorem RunRecord.promoted_of_pendingRows {w : RunRecord} (hkeyed : v.Keyed)
    {ready : List StepDefinition} (hready : readySteps v.definition v.stepRuns = .ok ready)
    (hdefinition : w.definition = v.definition)
    (hstates : ∀ id, w.stateOf id =
      if id ∈ (v.pendingRows ready).map StepRun.stepId then some .ready else v.stateOf id) :
    w.Promoted := by
  intro step hstep hdependencies hpending
  rw [hdefinition] at hstep
  have hsucceeded : ∀ d ∈ step.dependsOn, v.stateOf d = some .succeeded := by
    intro d hd
    have hd := hdependencies d hd
    rw [hstates d] at hd
    split at hd
    · cases hd
    · exact hd
  rw [hstates] at hpending
  split at hpending
  case isTrue => cases hpending
  case isFalse hnone =>
    obtain ⟨row, hrow, hstate⟩ := stateOf_eq_some_iff.mp hpending
    have hmem : step ∈ ready := (mem_readySteps hready).mpr
      ⟨hstep, (hkeyed.isReady_iff hstep).mpr ⟨Or.inl hpending, hsucceeded⟩⟩
    refine hnone (List.mem_map.mpr ⟨row, List.mem_filter.mpr ⟨?_, by simpa using hstate⟩,
      (hkeyed.step hrow).1⟩)
    exact List.mem_filterMap.mpr ⟨step, hmem, hrow⟩

/-- The unit of work ends without an error, whatever the steps of the run are. -/
theorem promoteDependencyReadySteps_returns (occurredAt : Timestamp)
    (hrecord : base.record runId = some v)
    (hopen : ¬ v.run.state.Terminal) (hstocked : v.Stocked) (hsteps : v.definition.steps ≠ [])
    (hpending : duplicatePendingRun base = none) :
    Tx.Returns (promoteDependencyReadySteps runId occurredAt) (fun exit staged =>
      match exit with
      | .commit _ => validate staged base = .ok () ∧
          ∃ w, (UowM.view base staged).record runId = some w ∧ w.run = v.run ∧
            w.definition = v.definition ∧ w.attempts = v.attempts ∧
              (∀ id, w.stateOf id = v.stateOf id ∨ w.stateOf id = some .ready) ∧ w.Promoted
      | .leave _ => v.Promoted) base [] := by
  have hkeyed := MemoryStore.keyed_of_record hrecord
  obtain ⟨ready, hready⟩ := hstocked.readySteps_isOk hkeyed hsteps
  have hmem : ready ⊆ v.definition.steps := fun step hstep => ((mem_readySteps hready).mp hstep).1
  -- what the walk through the ready steps stages
  obtain ⟨changed, final, hrun, rfl, hunchanged⟩ :=
    promotePendingSteps_returns base occurredAt hkeyed hstocked ready hmem []
  rw [List.nil_append] at hrun
  obtain ⟨w, hturns, steps, events, rfl, _, _⟩ := promotePendingSteps_spec hrecord ready
    (fun step hstep => (mem_readySteps hready).mp hstep) (by simp) (.refl v) _ _ hrun
  unfold promoteDependencyReadySteps
  refine Tx.returns_bind (Tx.returns_read ?_)
  simp only [Tx.view_nil, MemoryStore.runs_get_of_record hrecord, if_neg hopen]
  refine Tx.returns_bind (Tx.returns_read ?_)
  simp only [Tx.view_nil, MemoryStore.definitionOf_of_record hrecord]
  refine Tx.returns_bind (Tx.returns_read ?_)
  simp only [Tx.view_nil, MemoryStore.stepRuns_of_record hrecord]
  refine Tx.returns_bind (Tx.returns_lift hready (Tx.returns_bind ⟨changed, _, hrun, ?_⟩))
  have hstates := RunRecord.foldl_promotions occurredAt (v.pendingRows ready)
  refine Tx.returns_pure ?_
  -- the unit commits if something changed and leaves otherwise
  cases changed with
  | true =>
      have hstates (id : String) := (congrArg (RunRecord.stateOf · id) hturns.result).symm.trans
        (hstates id v)
      refine ⟨validate_of_fits (fits_promotions hrecord) hpending, _,
        hturns.record hrecord, rfl, rfl, rfl, fun id => ?_,
        RunRecord.promoted_of_pendingRows (v := v) hkeyed hready rfl hstates⟩
      have hstate := hstates id
      split at hstate
      · exact Or.inr hstate
      · exact Or.inl hstate
  | false =>
      exact RunRecord.promoted_of_pendingRows hkeyed hready rfl fun id => by
        simp [hunchanged rfl]

/-- Nothing waits to be retried. -/
def RunRecord.NoRetries (v : RunRecord) : Prop := ∀ id, v.stateOf id ≠ some .retryWait

theorem promoteDueSteps_returns {now occurredAt : Timestamp} (hrecord : base.record runId = some v)
    (hretries : v.NoRetries) (steps : List StepDefinition) :
    Tx.Returns (promoteDueSteps runId now occurredAt steps) (fun changed _ => changed = false)
      base [] := by
  induction steps with
  | nil => exact Tx.returns_pure rfl
  | cons step rest ih =>
      unfold promoteDueSteps
      refine Tx.returns_bind (Tx.returns_read ?_)
      rw [Tx.view_nil, MemoryStore.getStep_of_record hrecord]
      cases hrow : v.steps step.id with
      | none => exact ih
      | some row =>
          have hstate : row.state ≠ .retryWait := by
            intro hstate
            exact hretries step.id (RunRecord.stateOf_eq_some_iff.mpr ⟨row, hrow, hstate⟩)
          simpa only [if_pos hstate] using ih

/-- Without a step to retry, the store is left as it is. -/
theorem promoteDueRetries_returns (now occurredAt : Timestamp)
    (hrecord : base.record runId = some v)
    (hretries : v.NoRetries) :
    Tx.Returns (promoteDueRetries runId now occurredAt) (fun exit _ => ¬ exit.Committed) base [] := by
  unfold promoteDueRetries
  refine Tx.returns_bind (Tx.returns_read ?_)
  simp only [Tx.view_nil, MemoryStore.runs_get_of_record hrecord]
  split
  · exact Tx.returns_pure id
  refine Tx.returns_bind (Tx.returns_read ?_)
  simp only [Tx.view_nil, MemoryStore.definitionOf_of_record hrecord]
  refine Tx.returns_bind ((promoteDueSteps_returns hrecord hretries _).mono ?_)
  rintro changed staged rfl
  exact Tx.returns_pure id

end

/-! ## Pending requests -/

/-- No run has two pending requests. -/
def MemoryStore.Unambiguous (store : MemoryStore) : Prop := duplicatePendingRun store = none

/-- Each commit checks that. -/
theorem unambiguous_of_validate {store : MemoryStore} {writes : List Write}
    (h : validate writes store = .ok ()) : (UowM.view store writes).Unambiguous := by
  have hunique := (Except.bind_unit_eq_ok_iff.mp h).1
  unfold validateUniqueness at hunique
  dsimp only at hunique
  split at hunique
  case h_1 => cases hunique
  case h_2 =>
    split at hunique
    case h_1 => cases hunique
    case h_2 hnone => exact hnone

theorem unambiguous_transact {α : Type} {body : UowM (Exit α)} {store next : MemoryStore} {a : α}
    (hstore : store.Unambiguous) (h : store.transact body = .ok (a, next)) : next.Unambiguous := by
  refine Tx.Ensures.transact (P := fun _ next => MemoryStore.Unambiguous next)
    (fun exit staged _ => ?_) h
  cases exit with
  | commit a => exact unambiguous_of_validate
  | leave a => exact hstore

namespace Shared

variable {cfg : Deployment} {s : Shared}

theorem inStore_unambiguous {α : Type} {body : UowM (Exit α)} (hs : s.store.Unambiguous) :
    (s.inStore body).2.store.Unambiguous := by
  unfold inStore
  cases htransact : s.store.transact body with
  | error => exact hs
  | ok result => exact unambiguous_transact hs htransact

theorem recordOutcome_unambiguous {outcome : ExecutionOutcome} {paths : List (List String)}
    {answer : Except Error Unit} {t : Shared} (hs : s.store.Unambiguous)
    (h : s.recordOutcome cfg outcome paths = (answer, t)) : t.store.Unambiguous := by
  unfold recordOutcome at h
  split at h
  case h_1 =>
    obtain ⟨_, rfl⟩ := Prod.mk.inj h
    exact hs
  case h_2 unknown next htransact =>
    obtain ⟨_, rfl⟩ := Prod.mk.inj h
    cases unknown <;> exact unambiguous_transact hs htransact

theorem store_settle (owned : OwnedFuture) : (s.settle owned).store = s.store := by
  unfold settle
  split <;> rfl

theorem collectFuture_unambiguous {id : ℕ} {now : Timestamp} (hs : s.store.Unambiguous) :
    (s.collectFuture cfg id now).2.store.Unambiguous := by
  unfold collectFuture
  cases s.findOwned id with
  | none => exact hs
  | some owned =>
      dsimp only
      split
      · split <;> exact hs
      · cases collectedOutcome owned now with
        | none => exact hs
        | some outcome =>
            dsimp only
            split
            case h_1 hrecorded => exact recordOutcome_unambiguous hs hrecorded
            case h_2 hrecorded =>
              rw [store_settle]
              exact recordOutcome_unambiguous hs hrecorded

theorem closeFuture_unambiguous {id : ℕ} {cancelSucceeds : Bool} (hs : s.store.Unambiguous) :
    (s.closeFuture cfg id cancelSucceeds).2.store.Unambiguous := by
  unfold closeFuture
  cases s.findOwned id with
  | none => exact hs
  | some owned =>
      dsimp only
      split
      · exact hs
      · have hs' : (s.updateOwned id fun _ =>
            (closingOutcome owned cancelSucceeds).1).store.Unambiguous := hs
        split
        case h_1 hrecorded => exact recordOutcome_unambiguous hs' hrecorded
        case h_2 hrecorded =>
          rw [store_settle]
          exact recordOutcome_unambiguous hs' hrecorded

theorem dispatch_unambiguous {prepared : PreparedAttempt} {submitFails : Bool}
    (hs : s.store.Unambiguous) : (s.dispatch prepared submitFails).2.store.Unambiguous := by
  have hcommitted : (s.inStore (commitAttemptStarted prepared.attempt)).2.store.Unambiguous :=
    inStore_unambiguous hs
  unfold dispatch
  split
  case h_1 heq =>
    rw [heq] at hcommitted
    exact hcommitted
  case h_2 heq =>
    rw [heq] at hcommitted
    cases submitFails <;> exact hcommitted

theorem exec_unambiguous (op : Op) (inputs : Inputs) (hs : s.store.Unambiguous) :
    (exec cfg op inputs s).2.store.Unambiguous := by
  cases op with
  | collectFuture => exact collectFuture_unambiguous hs
  | closeFuture => exact closeFuture_unambiguous hs
  | dispatch => exact dispatch_unambiguous hs
  | persistSubmissionFailure => exact recordOutcome_unambiguous hs rfl
  | promoteDueRetries | promoteDependencyReadySteps | establishApprovalBarrier
  | completeCompensation | recoverAttempt =>
      exact inStore_unambiguous hs
  | _ => exact hs

end Shared

/-! ## What holds while the system runs -/

namespace World

/-- What holds in every state of a system in which runs are created of the payloads. -/
structure Live (cfg : Deployment) (payloads : Set Value) (w : World) : Prop where
  good : w.Good cfg
  steady : ∀ {runId : String} {v : RunView}, w.shared.view runId = some v → v.Steady
  stocked : ∀ {runId : String} {v : RunView}, w.shared.view runId = some v → v.Stocked
  accepted : ∀ key definition, w.shared.store.definitions.get key = some definition →
    ∃ payload ∈ payloads,
      WorkflowDefinition.fromMapping cfg.runtime cfg.registry payload = .ok definition
  unambiguous : w.shared.store.Unambiguous

variable {cfg : Deployment} {payloads : Set Value} {w : World}

theorem initial_live (instant : Timestamp) : (World.initial instant).Live cfg payloads where
  good := initial_good instant
  steady hv := by
    simp [World.initial, Shared.view, MemoryStore.record, KeyedTable.get, KeyedTable.empty] at hv
  stocked hv := by
    simp [World.initial, Shared.view, MemoryStore.record, KeyedTable.get, KeyedTable.empty] at hv
  accepted _ _ h := by simp [World.initial, KeyedTable.get, KeyedTable.empty] at h
  unambiguous := rfl

theorem step_unambiguous (action : Action) (h : w.shared.store.Unambiguous) :
    (w.step cfg action).shared.store.Unambiguous := by
  cases action with
  | runOnce | recover | close =>
      simp only [World.step, World.call_shared]
      exact h
  | proceed inputs =>
      unfold World.step World.proceed
      cases w.thread with
      | ret => exact h
      | call op k => exact Shared.exec_unambiguous op inputs h
  | createRun | decide | cancelRun => exact Shared.inStore_unambiguous h
  | toolDone | tick | crash => exact h

theorem Live.step (h : w.Live cfg payloads) (hdigests : cfg.DigestsTell payloads)
    (action : Action) (haction : World.CreatesOf payloads w action) :
    (w.step cfg action).Live cfg payloads where
  good := (h.good.step action).1
  -- a run of the new world was there before or has just been created
  steady {runId v'} hv' := by
    have hfollows := (h.good.step action).2
    cases hv : w.shared.view runId with
    | none => exact RunView.steady_of_initial (hfollows.created runId v' hv hv').1
    | some v =>
        obtain ⟨v'', hv'', hstep⟩ := hfollows.views runId v hv
        obtain rfl := Option.some.inj (hv''.symm.trans hv')
        rcases hstep with rfl | hmove
        · exact h.steady hv
        · exact hmove.steady (h.good.wellFormed.sound runId v hv) (h.steady hv)
  stocked {runId v'} hv' := by
    cases hv : w.shared.view runId with
    | none =>
        obtain ⟨payload, definition, rfl, hparsed, hstores⟩ := h.good.created_step action hv hv'
        exact hstores.stocked (Shared.view_eq_some_iff.mp hv').1 (haction payload runId rfl) hparsed
          h.accepted hdigests
    | some v =>
        obtain ⟨v'', hv'', hstep⟩ := (h.good.step action).2.views runId v hv
        obtain rfl := Option.some.inj (hv''.symm.trans hv')
        rcases hstep with rfl | hmove
        · exact h.stocked hv
        · exact hmove.stocked (h.stocked hv)
  accepted key definition hdefinition := by
    rcases h.good.definitions_step action hdefinition with hold | ⟨payload, runId, rfl, hparsed⟩
    · exact h.accepted key definition hold
    · exact ⟨payload, haction payload runId rfl, hparsed⟩
  unambiguous := step_unambiguous action h.unambiguous

end World

theorem Reachable.live {cfg : Deployment} {payloads : Set Value}
    (hdigests : cfg.DigestsTell payloads) {w : World}
    (h : Reachable cfg (World.CreatesOf payloads) w) : w.Live cfg payloads := by
  induction h with
  | initial instant => exact World.initial_live instant
  | step action _ haction ih => exact ih.step hdigests action haction

/-! ## The two promotions of a turn -/

namespace Shared

variable {s : Shared} {runId : String} {v : RunView}

/-- A unit of work that ends without an error, as the process performs it. -/
theorem inStore_of_transact {α : Type} {body : UowM (Exit α)} {a : α} {next : MemoryStore}
    (h : s.store.transact body = .ok (a, next)) :
    s.inStore body = (.ok a, { s with store := next }) := by
  rw [inStore, h]

theorem exec_promoteDueRetries (cfg : Deployment) (inputs : Inputs) (now : Timestamp)
    (hv : s.view runId = some v) (hretries : v.NoRetries) :
    exec cfg (.promoteDueRetries runId now) inputs s = (.ok (), s) := by
  have hrecord := (view_eq_some_iff.mp hv).1
  obtain ⟨_, _, htransact, rfl⟩ := Tx.Returns.transact (P := fun _ next => next = s.store)
    ((promoteDueRetries_returns now s.clock hrecord hretries).mono
      fun exit staged h => by
        cases exit with
        | commit => exact absurd trivial h
        | leave => rfl)
  exact inStore_of_transact htransact

/-- After the promotion no pending step of an open run has all its dependencies
behind it. -/
theorem exec_promoteDependencyReadySteps (cfg : Deployment) (inputs : Inputs) (hv : s.view runId = some v)
    (hopen : ¬ v.run.state.Terminal) (hstocked : v.Stocked) (hsteps : v.definition.steps ≠ [])
    (hunambiguous : s.store.Unambiguous) :
    ∃ s' v', exec cfg (.promoteDependencyReadySteps runId) inputs s = (.ok (), s') ∧
      s'.view runId = some v' ∧ v'.run = v.run ∧ v'.definition = v.definition ∧
        v'.attempts = v.attempts ∧
          (∀ id, v'.stateOf id = v.stateOf id ∨ v'.stateOf id = some .ready) ∧ v'.Promoted := by
  obtain ⟨hrecord, hinFlight, hlatest⟩ := view_eq_some_iff.mp hv
  obtain ⟨_, next, htransact, w, hw, hrun, hdefinition, hattempts, hstates, hpromoted⟩ :=
    Tx.Returns.transact (P := fun _ next => ∃ w, next.record runId = some w ∧ w.run = v.run ∧
        w.definition = v.definition ∧ w.attempts = v.attempts ∧
          (∀ id, w.stateOf id = v.stateOf id ∨ w.stateOf id = some .ready) ∧ w.Promoted)
      ((promoteDependencyReadySteps_returns s.clock hrecord hopen hstocked hsteps
        hunambiguous).mono fun exit staged h => by
          cases exit with
          | commit => exact h
          | leave => exact ⟨v.toRunRecord, hrecord, rfl, rfl, rfl, fun _ => Or.inl rfl, h⟩)
  exact ⟨_, { w with inFlight := v.inFlight, latest := v.latest }, inStore_of_transact htransact,
    view_eq_some_iff.mpr ⟨hw, hinFlight, hlatest⟩, hrun, hdefinition, hattempts, hstates,
    hpromoted⟩

end Shared

/-! ## Some step can be started -/

/-- A step is being retried, under way, or of unknown result. -/
def RunRecord.Busy (v : RunRecord) : Prop :=
  ∃ id, ∃ state ∈ [StepState.retryWait, .resultUnknown, .running], v.stateOf id = some state

/-- A step may be started at once. -/
def RunRecord.CanStart (v : RunRecord) (step : StepDefinition) : Prop :=
  step ∈ v.definition.steps ∧ v.stateOf step.id = some .ready ∧
    ∀ d ∈ step.dependsOn, v.stateOf d = some .succeeded

/-- Of the steps that have not succeeded, the first in the order of the dependencies
has all of them behind it. -/
theorem RunRecord.exists_first {v : RunRecord} (h : ¬ v.AllSucceeded) :
    ∃ step ∈ v.definition.steps, v.stateOf step.id ≠ some .succeeded ∧
      ∀ d ∈ step.dependsOn, v.stateOf d = some .succeeded := by
  obtain ⟨rank, hrank⟩ := v.definition.acyclic
  have hne : ∃ n, ∃ step ∈ v.definition.steps, v.stateOf step.id ≠ some .succeeded ∧
      rank step.id = n := by
    simp only [AllSucceeded, not_forall] at h
    obtain ⟨step, hstep, hstate⟩ := h
    exact ⟨_, step, hstep, hstate, rfl⟩
  classical
  obtain ⟨step, hstep, hstate, hmin⟩ := Nat.find_spec hne
  refine ⟨step, hstep, hstate, fun d hd => ?_⟩
  obtain ⟨other, hother, rfl⟩ := v.definition.dependencies_known step hstep d hd
  by_contra hopen
  -- a dependency has a smaller rank
  have hlt : rank other.id < Nat.find hne := hmin ▸ hrank step hstep _ hd
  exact Nat.find_min hne hlt ⟨other, hother, hopen, rfl⟩

/-- A run that goes forward, and in which nothing is under way, has a step to start. -/
theorem RunView.exists_canStart {v : RunView} (hsound : v.Sound) (hsteady : v.Steady)
    (hstocked : v.Stocked) (hsteps : v.definition.steps ≠ []) (hforward : v.run.state.Forward)
    (hbusy : ¬ v.Busy) (hpromoted : v.Promoted) : ∃ step, v.CanStart step := by
  have hopen : v.run.state.Open := by
    simp only [RunState.Forward, List.mem_cons, List.not_mem_nil, or_false] at hforward
    rcases hforward with h | h <;> simp [RunState.Open, h]
  -- a run that goes forward has a step to go
  have hnotAll : ¬ v.AllSucceeded := by
    intro hall
    simp only [RunState.Forward, List.mem_cons, List.not_mem_nil, or_false] at hforward
    rcases hforward with hpending | hrunning
    · -- nothing has been attempted yet
      obtain ⟨step, hstep⟩ := List.exists_mem_of_ne_nil _ hsteps
      obtain ⟨a, ha, _⟩ := hsteady _ _ (hall step hstep)
      rw [hsound.fresh hpending] at ha
      cases ha
    · exact hsound.running hrunning hall
  -- the first of them has succeeded dependencies only
  obtain ⟨step, hstep, hstate, hdependencies⟩ := RunRecord.exists_first hnotAll
  obtain ⟨row, hrow⟩ := Option.isSome_iff_exists.mp (hstocked step hstep)
  have hrowState : v.stateOf step.id = some row.state :=
    RunRecord.stateOf_eq_some_iff.mpr ⟨row, hrow, rfl⟩
  refine ⟨step, hstep, ?_, hdependencies⟩
  have hsupports := hsteady _ _ hrowState
  -- of its states only ready is left: the others end the run or keep it busy
  cases hcase : row.state with
  | ready => rw [hrowState, hcase]
  | pending => exact absurd (hrowState.trans (congrArg some hcase)) (hpromoted step hstep hdependencies)
  | succeeded => exact absurd (hrowState.trans (congrArg some hcase)) hstate
  | failed | manualIntervention =>
      rw [hcase] at hsupports
      exact absurd hopen hsupports
  | running | retryWait | resultUnknown =>
      exact absurd ⟨step.id, _, by decide, hrowState.trans (congrArg some hcase)⟩ hbusy

end ChangePilot
