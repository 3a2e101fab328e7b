import ChangePilot.System.Promotion

/-!
# The candidates of a turn

A turn of the coordinator first chooses the steps to start and then starts them.
`selectTurn` is the first part; `runSelected_eq` says that the turn is this part and the
dispatch of the candidates.  Whatever the surroundings do meanwhile, a turn without
candidates has a reason for it.
-/

namespace ChangePilot

/-! ## The choice -/

/-- What a turn has read when it comes to the dispatch. -/
structure Candidates where
  stepRuns : List StepRun
  availableCapacity : ℕ
  ready : List StepDefinition

/-- The steps that are started, as far as the capacity goes. -/
def Candidates.steps (candidates : Candidates) : List StepDefinition :=
  candidates.ready.take candidates.availableCapacity

variable (cfg : Deployment)

/-- The forward part of a turn up to its candidates, or to its report. -/
def selectForward (runId : String) (completed : List ExecutionOutcome) :
    Activity (CoordinationReport ⊕ Candidates) := do
  let instant ← Activity.now
  Activity.promoteDueRetries runId instant
  Activity.promoteDependencyReadySteps runId
  let (definition, stepRuns) ← Activity.loadDefinitionAndSteps runId
  let capacity ← Activity.availableCapacity
  let ready ← Activity.lift (readySteps definition stepRuns)
  let readyCandidates := ready.filter fun step => stepStateIs stepRuns step.id [.ready]
  match ← Activity.lift (findProtected cfg readyCandidates) with
  | none => return .inr ⟨stepRuns, capacity, readyCandidates⟩
  | some protectedStep =>
      match ← handleApprovalBarrier cfg runId definition protectedStep with
      | some reason => return .inl (blocked runId completed reason)
      | none => return .inr ⟨stepRuns, capacity, [protectedStep]⟩

/-- A turn for the selected run up to its candidates, or to its report. -/
def selectTurn (runId : String) (run : WorkflowRun) (completed : List ExecutionOutcome)
    (collectionFailed : Bool) : Activity (CoordinationReport ⊕ Candidates) := do
  if run.state.Terminal then return .inl (blocked runId completed .runTerminal)
  if run.state = .waitingApproval then
    if ← Activity.hasPersistedRecoveryWork runId then
      return .inl (blocked runId completed .approvalRecoveryRequired)
  if run.state = .compensating then
    if collectionFailed then return .inl (blocked runId completed .internalConsistency)
    let report ← runCompensationOnce cfg runId completed
    return .inl report
  else if ¬ run.state.Forward then return .inl (blocked runId completed .runNotForward)
  else if collectionFailed then return .inl (blocked runId completed .internalConsistency)
  else if ← Activity.hasPersistedRecoveryWork runId then
    let locallyUnknown ← Activity.isLocallyUnknown runId
    return .inl (blocked runId completed
      (if locallyUnknown then .resultUnknown else .approvalRecoveryRequired))
  else selectForward cfg runId completed

/-- The rest of the turn. -/
def finishTurn (runId : String) (completed : List ExecutionOutcome) :
    CoordinationReport ⊕ Candidates → Activity CoordinationReport
  | .inl report => return report
  | .inr candidates => dispatchCandidates cfg runId completed candidates.stepRuns
      candidates.availableCapacity candidates.ready

theorem runForwardOnce_eq (runId : String) (completed : List ExecutionOutcome) :
    runForwardOnce cfg runId completed =
      selectForward cfg runId completed >>= finishTurn cfg runId completed := by
  simp only [runForwardOnce, selectForward, bind_assoc]
  refine bind_congr fun instant => bind_congr fun _ => bind_congr fun _ => bind_congr fun loaded =>
    bind_congr fun capacity => bind_congr fun ready => bind_congr fun found => ?_
  cases found with
  | none => rfl
  | some protectedStep =>
      simp only [bind_assoc]
      refine bind_congr fun reason => ?_
      cases reason <;> rfl

theorem runSelected_eq (runId : String) (run : WorkflowRun) (completed : List ExecutionOutcome)
    (collectionFailed : Bool) : runSelected cfg runId (some run) completed collectionFailed =
      selectTurn cfg runId run completed collectionFailed >>= finishTurn cfg runId completed := by
  have choice {α β : Type} (c : Prop) [Decidable c] (x y : Activity α) (f : α → Activity β) :
      (if c then x else y) >>= f = if c then x >>= f else y >>= f := apply_ite (· >>= f) c x y
  simp only [runSelected, selectTurn, bind_assoc, choice, pure_bind, finishTurn, bind_pure,
    runForwardOnce_eq]

/-! ## What happens meanwhile -/

/-- The acts of the surroundings. -/
inductive Action.Outside (payloads : Set Value) : Action → Prop
  | createRun {payload : Value} (runId : String) (hpayload : payload ∈ payloads) :
      Outside payloads (.createRun payload runId)
  | decide (runId requestId : String) (decision : ApprovalDecision) (expectedVersion : ℤ)
      (bindingDigest actor reason : String) : Outside payloads
        (.decide runId requestId decision expectedVersion bindingDigest actor reason)
  | cancelRun (runId : String) : Outside payloads (.cancelRun runId)
  | toolDone (id : ℕ) (ending : Except ToolException ToolExecutionResult) :
      Outside payloads (.toolDone id ending)
  | tick (instant : Timestamp) : Outside payloads (.tick instant)

namespace Shared

/-- One act of the surroundings, which leaves the process alone. -/
def Disturbed (payloads : Set Value) (s s' : Shared) : Prop :=
  ∃ action, action.Outside payloads ∧ ∀ thread : Prog Op (fun op => Except Error op.Ans)
    (Except Error Unit), World.step cfg ⟨s, thread⟩ action = ⟨s', thread⟩

end Shared

/-- The process performs the activity, and the surroundings act in between. -/
abbrev Activity.Ends {α : Type} (payloads : Set Value) (activity : Activity α) (s : Shared)
    (result : Except Error α) (t : Shared) : Prop :=
  Prog.Interleaved (exec cfg) (Relation.ReflTransGen (Shared.Disturbed cfg payloads))
    (ExceptT.run activity) s result t

variable {cfg}

/-- What the surroundings do to a run that goes forward, or has come to its end. -/
structure RunView.Endures (v v' : RunView) : Prop extends v.Surrounded v' where
  terminal : v.run.state.Terminal → v'.run.state.Terminal
  forward : v.run.state.Forward → v'.run.state.Forward ∨ v'.run.state.Terminal

theorem RunView.Endures.refl (v : RunView) : v.Endures v := ⟨.refl v, id, Or.inl⟩

theorem RunView.Endures.trans {a b c : RunView} (hab : a.Endures b) (hbc : b.Endures c) :
    a.Endures c where
  toSurrounded := hab.toSurrounded.trans hbc.toSurrounded
  terminal h := hbc.terminal (hab.terminal h)
  forward h := (hab.forward h).elim hbc.forward fun h => Or.inr (hbc.terminal h)

theorem RunMove.endures {v v' : RunView} (h : RunMove cfg v .operator v') : v.Endures v' where
  toSurrounded := h.surrounded
  terminal hterminal := by
    rcases h.run_state with hsame | htransition
    · rwa [hsame]
    · exact absurd hterminal (RunState.not_terminal_of_transition htransition)
  forward hforward := by
    cases h with
    | decided _ _ hstate =>
        rw [hstate] at hforward
        exact absurd hforward (by decide)
    | cancelled => exact Or.inr (by simp [RunState.Terminal])

namespace Shared

/-- Every run endures what has happened. -/
structure Endures (s s' : Shared) : Prop where
  views : ∀ runId v, s.view runId = some v → ∃ v', s'.view runId = some v' ∧ v.Endures v'
  latest : s.latest ≤ s'.latest

variable {s s' : Shared} {payloads : Set Value}

theorem Endures.refl (s : Shared) : s.Endures s :=
  ⟨fun _ v hv => ⟨v, hv, .refl v⟩, le_refl _⟩

theorem Endures.trans {a b c : Shared} (hab : a.Endures b) (hbc : b.Endures c) : a.Endures c where
  views runId v hv := by
    obtain ⟨v', hv', hfirst⟩ := hab.views runId v hv
    obtain ⟨v'', hv'', hthen⟩ := hbc.views runId v' hv'
    exact ⟨v'', hv'', hfirst.trans hthen⟩
  latest := hab.latest.trans hbc.latest

theorem Advances.endures (h : s.Advances cfg .operator s') : s.Endures s' where
  views runId v hv := by
    obtain ⟨v', hv', rfl | hmove⟩ := h.view hv
    · exact ⟨v', hv', .refl v'⟩
    · exact ⟨v', hv', hmove.endures⟩
  latest := h.latest.ge

theorem Disturbed.endures (h : Disturbed cfg payloads s s') (hs : s.WellFormed) :
    s.Endures s' := by
  obtain ⟨action, houtside, hstep⟩ := h
  have hshared := congrArg World.shared (hstep (.ret (.ok ())))
  dsimp only at hshared
  have operated (hadvances : s.Advances cfg .operator s') : s.Endures s' := hadvances.endures
  cases houtside with
  | @createRun payload runId hpayload =>
      rcases createRun_created cfg hs payload runId s.clock with hsame | hcreated
      · rw [← hshared]
        exact (show (World.step cfg ⟨s, _⟩ (.createRun payload runId)).shared = s from hsame).symm ▸
          .refl s
      · have hcreated : s.Created runId s' := hshared ▸ hcreated
        exact ⟨fun _ v hv => ⟨v, hcreated.view hv, .refl v⟩, hcreated.latest.ge⟩
  | decide runId requestId decision expectedVersion bindingDigest actor reason =>
      exact operated (hshared ▸ decide_advances hs)
  | cancelRun => exact operated (hshared ▸ cancelRun_advances hs)
  | toolDone id ending =>
      exact operated (hshared ▸ toolDone_advances hs id ending)
  | tick instant =>
      rw [← hshared]
      exact ⟨fun runId v hv => ⟨{ v with latest := max v.latest instant },
        by rw [World.step, view_tick, hv]; rfl,
        ⟨rfl, rfl, rfl, rfl, rfl, le_max_left _ _, fun _ h _ => h, id⟩, id, Or.inl⟩,
        le_max_left _ _⟩

end Shared

/-- What the process keeps to in each of its turns, whatever it goes on with. -/
theorem World.Live.disturbed {payloads : Set Value} (hdigests : cfg.DigestsTell payloads)
    {s s' : Shared} {thread : Prog Op (fun op => Except Error op.Ans) (Except Error Unit)}
    (h : World.Live cfg payloads ⟨s, thread⟩)
    (hacted : Relation.ReflTransGen (Shared.Disturbed cfg payloads) s s') :
    s.Endures s' ∧ World.Live cfg payloads ⟨s', thread⟩ := by
  induction hacted with
  | refl => exact ⟨.refl s, h⟩
  | tail _ hdisturbed ih =>
      obtain ⟨hbefore, hlive⟩ := ih
      refine ⟨hbefore.trans (hdisturbed.endures hlive.good.wellFormed), ?_⟩
      obtain ⟨action, houtside, hstep⟩ := hdisturbed
      rw [← hstep thread]
      refine hlive.step hdigests action fun payload runId haction => ?_
      subst haction
      cases houtside
      assumption

/-! ## What a turn comes to -/

/-- `P` holds of what the activity comes to, whatever the surroundings do. -/
def Activity.Comes {α : Type} (cfg : Deployment) (payloads : Set Value) (P : α → Shared → Prop)
    (activity : Activity α) (s : Shared) : Prop :=
  Routine.Safe (exec cfg) Shared.Endures (fun s => ∃ thread, World.Live cfg payloads ⟨s, thread⟩)
    (fun _ _ => True) P activity s

namespace Activity.Comes

variable {α β : Type} {payloads : Set Value} {s t : Shared} {P : α → Shared → Prop}
  {Q : β → Shared → Prop}

theorem pure {a : α} (h : P a s) : Activity.Comes cfg payloads P (pure a) s := h

/-- What the activity does before does not matter. -/
theorem after {activity : Activity α} {f : α → Activity β}
    (hf : ∀ a t, (f a).Comes cfg payloads Q t) : (activity >>= f).Comes cfg payloads Q s :=
  Routine.Safe.after (fun _ _ => trivial) hf

theorem lift_bind {x : Except Error α} {f : α → Activity β}
    (h : ∀ a, x = .ok a → (f a).Comes cfg payloads Q s) :
    (Activity.lift x >>= f).Comes cfg payloads Q s := by
  cases x with
  | error e => trivial
  | ok a => exact h a rfl

theorem operation_bind {op : Op} {f : op.Ans → Activity β}
    (h : ∀ t, s.Endures t → (∃ thread, World.Live cfg payloads ⟨t, thread⟩) → ∀ inputs a,
      (exec cfg op inputs t).1 = .ok a → (f a).Comes cfg payloads Q (exec cfg op inputs t).2) :
    (Activity.operation op >>= f).Comes cfg payloads Q s :=
  Routine.Safe.perform_bind fun t ht hlive => ⟨trivial, h t ht hlive⟩

/-- So it is for every way in which the activity ends. -/
theorem of_ends (hdigests : cfg.DigestsTell payloads) {activity : Activity α}
    {f : Except Error α → Prog Op (fun op => Except Error op.Ans) (Except Error Unit)} {a : α}
    (hcomes : activity.Comes cfg payloads P s)
    (hlive : World.Live cfg payloads ⟨s, ExceptT.run activity >>= f⟩)
    (hends : activity.Ends cfg payloads s (.ok a) t) :
    P a t ∧ World.Live cfg payloads ⟨t, f (.ok a)⟩ := by
  refine Prog.Safe.interleaved (R := fun p s => World.Live cfg payloads ⟨s, p >>= f⟩)
    (fun h hacted => h.disturbed hdigests hacted) (fun {op k s} inputs h => ?_)
    (fun h => ⟨_, h⟩) hends hlive hcomes
  exact h.step hdigests (.proceed inputs) fun payload runId haction => by cases haction

end Activity.Comes

/-! ## The reason for having no candidates -/

/-- Without candidates there is no capacity, or a step goes on by itself, or the run has
come to its end. -/
def Candidates.Justified (candidates : Candidates) (runId : String) (t : Shared) : Prop :=
  candidates.steps = [] →
    (candidates.ready ≠ [] ∧ candidates.availableCapacity = 0) ∨
      (∃ row ∈ candidates.stepRuns,
        row.state ∈ [StepState.retryWait, .resultUnknown, .running]) ∨
        t.Sees runId fun v => v.run.state.Terminal

theorem Candidates.justified_of_ready {candidates : Candidates} (h : candidates.ready ≠ [])
    (runId : String) (t : Shared) : candidates.Justified runId t := by
  intro hnone
  rcases List.take_eq_nil_iff.mp hnone with hcapacity | hempty
  · exact Or.inl ⟨h, hcapacity⟩
  · exact absurd hempty h

namespace Shared

variable {s t : Shared} {runId : String} {payloads : Set Value}

theorem Sees.endures {P : RunView → Prop} (h : s.Sees runId P) (hendures : s.Endures t)
    (hP : ∀ v v', P v → v.Endures v' → P v') : t.Sees runId P := by
  obtain ⟨v, hv, hPv⟩ := h
  obtain ⟨v', hv', hkept⟩ := hendures.views runId v hv
  exact ⟨v', hv', hP v v' hPv hkept⟩

/-- A unit of work that leaves the run and its definition as they are. -/
theorem inStore_sees {α : Type} {body : UowM (Exit α)} {v : RunView}
    (hv : s.view runId = some v)
    (hbody : Tx.Ensures body (fun exit staged => match exit with
      | .commit _ => ∃ w, v.Turns staged w ∧ w.run = v.run ∧ w.definition = v.definition
      | .leave _ => True) s.store []) :
    (s.inStore body).2.Sees runId fun w => w.run = v.run ∧ w.definition = v.definition := by
  obtain ⟨hrecord, hinFlight, hlatest⟩ := view_eq_some_iff.mp hv
  unfold inStore
  cases htransact : s.store.transact body with
  | error e => exact ⟨v, hv, rfl, rfl⟩
  | ok result =>
      obtain ⟨a, next⟩ := result
      obtain ⟨w, hw, hrun, hdefinition⟩ := Tx.Ensures.transact (P := fun _ next => ∃ w,
        next.record runId = some w ∧ w.run = v.run ∧ w.definition = v.definition)
        (hbody.mono fun exit staged h => by
          cases exit with
          | commit =>
              obtain ⟨w, hturns, hkept⟩ := h
              exact fun _ => ⟨w, hturns.record hrecord, hkept⟩
          | leave => exact ⟨v.toRunRecord, hrecord, rfl, rfl⟩) htransact
      exact ⟨{ w with inFlight := v.inFlight, latest := v.latest },
        view_eq_some_iff.mpr ⟨hw, hinFlight, hlatest⟩, hrun, hdefinition⟩

/-- The run has steps, and it goes forward or has come to its end. -/
def Underway (runId : String) (s : Shared) : Prop :=
  s.Sees runId fun v => v.definition.steps ≠ [] ∧ (v.run.state.Forward ∨ v.run.state.Terminal)

/-- ... and, as long as it goes forward, nothing is left to promote. -/
def Sorted (runId : String) (s : Shared) : Prop :=
  s.Sees runId fun v => v.definition.steps ≠ [] ∧
    (v.run.state.Forward ∧ v.Promoted ∨ v.run.state.Terminal)

theorem Underway.endures (h : s.Underway runId) (hendures : s.Endures t) : t.Underway runId :=
  Sees.endures h hendures fun _ _ hv hkept => ⟨hkept.definition ▸ hv.1,
    hv.2.elim hkept.forward fun hterminal => Or.inr (hkept.terminal hterminal)⟩

theorem Sorted.endures (h : s.Sorted runId) (hendures : s.Endures t) : t.Sorted runId := by
  refine Sees.endures h hendures fun _ _ hv hkept => ⟨hkept.definition ▸ hv.1, ?_⟩
  rcases hv.2 with ⟨hforward, hpromoted⟩ | hterminal
  · refine (hkept.forward hforward).imp_left fun hforward' => ⟨hforward', ?_⟩
    intro step hstep hdependencies
    rw [hkept.stateOf_eq]
    exact hpromoted step (hkept.definition ▸ hstep) fun d hd =>
      (hkept.stateOf_eq d).symm.trans (hdependencies d hd)
  · exact Or.inr (hkept.terminal hterminal)

theorem Underway.promoteDueRetries (h : s.Underway runId) (cfg : Deployment) (now : Timestamp)
    (inputs : Inputs) : (exec cfg (.promoteDueRetries runId now) inputs s).2.Underway runId := by
  obtain ⟨v, hv, hsteps, hstate⟩ := h
  refine (inStore_sees hv ((promoteDueRetries_spec (view_eq_some_iff.mp hv).1).mono
    fun exit staged h => ?_)).imp fun w hw => ⟨hw.2 ▸ hsteps, hw.1 ▸ hstate⟩
  cases exit with
  | commit =>
      obtain ⟨w, hturns, _, _, rfl, _, _⟩ := h
      exact ⟨_, hturns, rfl, rfl⟩
  | leave => trivial

theorem Underway.promoteDependencyReadySteps (h : s.Underway runId)
    {thread : Prog Op (fun op => Except Error op.Ans) (Except Error Unit)}
    (hlive : World.Live cfg payloads ⟨s, thread⟩) (inputs : Inputs) :
    (exec cfg (.promoteDependencyReadySteps runId) inputs s).2.Sorted runId := by
  obtain ⟨v, hv, hsteps, hstate⟩ := h
  by_cases hterminal : v.run.state.Terminal
  · refine (inStore_sees hv ((promoteDependencyReadySteps_spec
      (view_eq_some_iff.mp hv).1).mono fun exit staged h => ?_)).imp
        fun w hw => ⟨hw.2 ▸ hsteps, Or.inr (hw.1 ▸ hterminal)⟩
    cases exit with
    | commit =>
        obtain ⟨w, hturns, _, _, rfl, _, _⟩ := h
        exact ⟨_, hturns, rfl, rfl⟩
    | leave => trivial
  · obtain ⟨s', v', hexec, hv', hrun, hdefinition, _, _, hpromoted⟩ :=
      exec_promoteDependencyReadySteps cfg inputs hv hterminal (hlive.stocked hv) hsteps
        hlive.unambiguous
    rw [hexec]
    exact ⟨v', hv', hdefinition ▸ hsteps,
      Or.inl ⟨hrun ▸ hstate.resolve_right hterminal, hpromoted⟩⟩

end Shared

/-- A run that goes forward, with nothing left to promote, has a candidate unless a step
goes on by itself. -/
theorem RunView.exists_ready {v : RunView} {payloads : Set Value} {s : Shared} {runId : String}
    {thread : Prog Op (fun op => Except Error op.Ans) (Except Error Unit)}
    (hlive : World.Live cfg payloads ⟨s, thread⟩) (hv : s.view runId = some v)
    (hsteps : v.definition.steps ≠ []) (hforward : v.run.state.Forward) (hpromoted : v.Promoted)
    {ready : List StepDefinition} (hready : readySteps v.definition v.stepRuns = .ok ready) :
    (∃ row ∈ v.stepRuns, row.state ∈ [StepState.retryWait, .resultUnknown, .running]) ∨
      ∃ step ∈ ready, stepStateIs v.stepRuns step.id [.ready] := by
  have hkeyed : v.Keyed := Shared.WellFormed.keyed hv
  by_cases hbusy : v.Busy
  · obtain ⟨id, state, hstate, hbusy⟩ := hbusy
    obtain ⟨row, hrow, rfl⟩ := RunRecord.stateOf_eq_some_iff.mp hbusy
    -- a step that has begun is one of the definition
    have hbegun : v.Begun id := by
      refine RunRecord.begun_of_stateOf (RunRecord.stateOf_eq_some_iff.mpr ⟨row, hrow, rfl⟩) ?_
      intro hpending
      rw [hpending] at hstate
      exact absurd hstate (by decide)
    obtain ⟨step, hstep, rfl, _⟩ := (hlive.good.wellFormed.sound runId v hv).begun id hbegun
    exact Or.inl ⟨row, RunRecord.mem_stepRuns.mpr ⟨step, hstep, hrow⟩, hstate⟩
  · obtain ⟨step, hstep, hstate, hdependencies⟩ :=
      RunView.exists_canStart (hlive.good.wellFormed.sound runId v hv) (hlive.steady hv)
        (hlive.stocked hv) hsteps hforward hbusy hpromoted
    refine Or.inr ⟨step, (mem_readySteps hready).mpr ⟨hstep, (hkeyed.isReady_iff hstep).mpr
      ⟨Or.inr hstate, hdependencies⟩⟩, ?_⟩
    exact (hkeyed.stepStateIs_iff hstep).mpr hstate

theorem selectForward_comes {payloads : Set Value} {s : Shared} {runId : String}
    (hs : s.Underway runId) (completed : List ExecutionOutcome) :
    (selectForward cfg runId completed).Comes cfg payloads (fun result t =>
      ∀ candidates, result = .inr candidates → candidates.Justified runId t) s := by
  unfold selectForward
  -- the run stays under way through the two promotions
  refine .operation_bind fun t₁ ht₁ _ _ instant _ => ?_
  have hs₁ : t₁.Underway runId := hs.endures ht₁
  refine .operation_bind fun t₂ ht₂ _ inputs₂ _ _ => ?_
  have hs₂ := (hs₁.endures ht₂).promoteDueRetries cfg instant inputs₂
  refine .operation_bind fun t₃ ht₃ ⟨_, hlive₃⟩ inputs₃ _ _ => ?_
  have hs₃ := (hs₂.endures ht₃).promoteDependencyReadySteps hlive₃ inputs₃
  refine .operation_bind fun t₄ ht₄ ⟨_, hlive₄⟩ _ loaded hloaded => ?_
  obtain ⟨definition, stepRuns⟩ := loaded
  obtain ⟨v, hv, ⟨hsteps, hstate⟩, rfl, rfl⟩ :=
    Shared.Sees.and (hs₃.endures ht₄) (Shared.sees_of_load hloaded)
  refine .operation_bind fun t₅ ht₅ _ _ capacity _ => ?_
  refine .lift_bind fun ready hready => ?_
  -- a ready step, a busy one, or the end of the run
  have hreason : (ready.filter fun step => stepStateIs v.stepRuns step.id [.ready]) ≠ [] ∨
      (∃ row ∈ v.stepRuns, row.state ∈ [StepState.retryWait, .resultUnknown, .running]) ∨
        t₅.Sees runId fun v => v.run.state.Terminal := by
    rcases hstate with ⟨hforward, hpromoted⟩ | hterminal
    · rcases RunView.exists_ready hlive₄ hv hsteps hforward hpromoted hready with hbusy |
        ⟨step, hstep, hstepReady⟩
      · exact Or.inr (Or.inl hbusy)
      · exact Or.inl (List.ne_nil_of_mem (List.mem_filter.mpr ⟨hstep, by simpa using hstepReady⟩))
    · exact Or.inr (Or.inr (Shared.Sees.endures ⟨v, hv, hterminal⟩ ht₅ fun _ _ h hkept =>
        hkept.terminal h))
  refine .lift_bind fun found _ => ?_
  -- no protected step is in front
  cases found with
  | none =>
      refine .pure fun candidates hcandidates => ?_
      obtain rfl := Sum.inr.inj hcandidates
      rcases hreason with hready | hreason
      · exact Candidates.justified_of_ready hready runId _
      · exact fun _ => Or.inr hreason
  -- the barrier stops the turn or lets its step through
  | some protectedStep =>
      refine .after fun reason t => ?_
      cases reason with
      | some reason => exact .pure fun candidates hcandidates => by cases hcandidates
      | none =>
          refine .pure fun candidates hcandidates => ?_
          obtain rfl := Sum.inr.inj hcandidates
          exact Candidates.justified_of_ready (List.cons_ne_nil _ _) runId _

/-- Candidates come from the forward part of a turn, whatever the surroundings do before it. -/
theorem selectTurn_safe {rely : Shared → Shared → Prop} {inv : Shared → Prop}
    {P : Candidates → Shared → Prop} {s : Shared} {runId : String} {run : WorkflowRun}
    (completed : List ExecutionOutcome) (collectionFailed : Bool)
    (hforward : run.state.Forward → ∀ t, rely s t → Routine.Safe (exec cfg) rely inv
      (fun _ _ => True) (fun result t => ∀ candidates, result = .inr candidates → P candidates t)
      (selectForward cfg runId completed) t) :
    Routine.Safe (exec cfg) rely inv (fun _ _ => True)
      (fun result t => ∀ candidates, result = .inr candidates → P candidates t)
      (selectTurn cfg runId run completed collectionFailed) s := by
  -- a turn that is reported offers nothing
  have reported {report : CoordinationReport} {t : Shared} :
      Routine.Safe (exec cfg) rely inv (fun _ _ => True)
        (fun result t => ∀ candidates, result = .inr candidates → P candidates t)
        (pure (.inl report) : Activity (CoordinationReport ⊕ Candidates)) t :=
    .pure fun candidates hcandidates => by cases hcandidates
  unfold selectTurn
  dsimp only
  split
  · exact reported
  split
  case isTrue hwaiting =>
    refine .perform_bind fun _ _ _ => ⟨trivial, fun _ work _ => ?_⟩
    split
    · exact reported
    · -- a waiting run is neither compensating nor going forward
      rw [if_neg (by simp [hwaiting]), if_pos (by simp [hwaiting, RunState.Forward])]
      exact reported
  case isFalse =>
    split
    · split
      · exact reported
      · exact .after (fun _ _ => trivial) fun _ _ => reported
    split
    · exact reported
    case isFalse hgoes =>
      split
      · exact reported
      refine .perform_bind fun t ht _ => ⟨trivial, fun _ work _ => ?_⟩
      split
      · exact .after (fun _ _ => trivial) fun _ _ => reported
      · exact hforward (not_not.mp hgoes) t ht

theorem selectTurn_comes {payloads : Set Value} {s : Shared} {runId : String} {v : RunView}
    (hv : s.view runId = some v) (hsteps : v.definition.steps ≠ [])
    (completed : List ExecutionOutcome) (collectionFailed : Bool) :
    (selectTurn cfg runId v.run completed collectionFailed).Comes cfg payloads (fun result t =>
      ∀ candidates, result = .inr candidates → candidates.Justified runId t) s :=
  selectTurn_safe completed collectionFailed fun hforward _ ht =>
    selectForward_comes (Shared.Underway.endures ⟨v, hv, hsteps, Or.inl hforward⟩ ht) completed

end ChangePilot
