import ChangePilot.System.Accepted
import ChangePilot.System.AttemptLog
import ChangePilot.System.Keys
import ChangePilot.System.Sample

/-!
# Preparing compensations

A definition is checked against the forward tools, but the arguments of a step are later
given to its compensation tool.  Where that tool accepts them, a run that is compensating
can prepare its next attempt; where it does not, the run never gets past it.
-/

namespace ChangePilot

/-! ## Steps that come before others -/

/-- The step named `id` depends on the one named `d`, directly or through others. -/
def WorkflowDefinition.DependsOn (definition : WorkflowDefinition) : String → String → Prop :=
  Relation.TransGen fun id d => ∃ step ∈ definition.steps, step.id = id ∧ d ∈ step.dependsOn

/-- The compensation tool of each step accepts the step's arguments, unless every other
step comes before it, so that no step is left to fail. -/
def WorkflowDefinition.Undoable (cfg : Deployment) (definition : WorkflowDefinition) : Prop :=
  ∀ step ∈ definition.steps, ∀ reference, step.compensationTool = some reference →
    (∃ arguments, cfg.registry.coerceArguments cfg.runtime reference.name reference.version
      step.arguments = .ok arguments) ∨
    ∀ other ∈ definition.steps, other.id ≠ step.id → definition.DependsOn step.id other.id

/-- A run is created of such a definition. -/
def World.CreatesUndoable (cfg : Deployment) (_ : World) (action : Action) : Prop :=
  ∀ payload runId definition, action = .createRun payload runId →
    WorkflowDefinition.fromMapping cfg.runtime cfg.registry payload = .ok definition →
      definition.Undoable cfg

/-! ## A run that compensates has not finished -/

/-- Some step has neither succeeded nor can it still do so while the run compensates. -/
def RunView.Unfinished (v : RunView) : Prop :=
  ∃ step ∈ v.definition.steps,
    v.stateOf step.id ∉ [some .succeeded, some .running, some .resultUnknown]

section

variable {cfg : Deployment} {cause : Cause} {v v' : RunView}

/-- A step runs only after a forward start, which a compensating run does not make. -/
theorem RunMove.running_origin (h : RunMove cfg v cause v') {id : String}
    (hrunning : v'.stateOf id = some .running) :
    v.stateOf id = some .running ∨ v.run.state ∈ [.pending, .running] := by
  -- a row that is changed to anything but running
  have updated {stepId : String} {row changed : StepRun} (hrow : v.steps stepId = some row)
      (hchanged : changed = row ∨ changed.state ≠ .running)
      (hsteps : v'.steps = Function.update v.steps stepId (some changed)) :
      v.stateOf id = some .running := by
    by_cases hid : id = stepId
    · subst hid
      simp only [RunRecord.stateOf, hsteps, Function.update_self, Option.map_some,
        Option.some.injEq] at hrunning
      rcases hchanged with rfl | hne
      · exact RunRecord.stateOf_eq_some_iff.mpr ⟨_, hrow, hrunning⟩
      · exact absurd hrunning hne
    · simpa [RunRecord.stateOf, hsteps, Function.update_of_ne hid] using hrunning
  cases h with
  -- a step starts running only while the run goes forward
  | forwardStarted _ hrun =>
      rcases hrun with ⟨hstate, _⟩ | ⟨hstate, _⟩ <;> simp [hstate]
  | retriesDue _ hsteps =>
      rcases hsteps id with hsame | ⟨_, _, _, _, _, _, _, _, hready⟩
      · exact Or.inl (by simpa [RunRecord.stateOf, hsame] using hrunning)
      · simp [RunRecord.stateOf, hready] at hrunning
  | dependenciesReady _ hsteps =>
      rcases hsteps id with hsame | ⟨_, _, _, _, _, _, _, hready⟩
      · exact Or.inl (by simpa [RunRecord.stateOf, hsame] using hrunning)
      · simp [RunRecord.stateOf, hready] at hrunning
  | forwardFinished _ _ _ _ hrow _ _ hresult =>
      refine Or.inl (updated hrow (Or.inr ?_) rfl)
      rw [RunRecord.finishedStep_state]
      exact (forwardResult_ne_ready hresult).2
  | recoveredApplied _ hrow _ _ _ _ hchanged | recoveredNotApplied _ hrow _ _ _ hchanged
  | recoveredManual _ hrow _ _ _ _ hchanged =>
      refine Or.inl (updated hrow ?_ rfl)
      rcases hchanged with ⟨_, _, rfl⟩ | ⟨_, rfl⟩
      · exact Or.inr (by simp)
      · exact Or.inl rfl
  | _ => exact Or.inl hrunning

/-- A run compensates only with a step that has failed, or one that nobody approved. -/
theorem RunMove.unfinished (h : RunMove cfg v cause v') (hv : v.Sound)
    (hunfinished : v.run.state = .compensating → v.Unfinished)
    (hstate : v'.run.state = .compensating) : v'.Unfinished := by
  -- While the run compensates, the step cannot start to run.
  have kept (hbefore : v.run.state = .compensating) : v'.Unfinished := by
    obtain ⟨step, hstep, hopen⟩ := hunfinished hbefore
    simp only [List.mem_cons, List.not_mem_nil, or_false, not_or] at hopen
    refine ⟨step, h.definition_eq ▸ hstep, ?_⟩
    have hrunning : v'.stateOf step.id ≠ some .running := fun hrunning => by
      rcases h.running_origin hrunning with hrunning | hforward
      · exact hopen.2.1 hrunning
      · simp [hbefore] at hforward
    rcases h.steps_eq_or step.id with hsame | ⟨row, row', hrow, hrow', htransition⟩
    · simpa [RunRecord.stateOf, hsame] using hopen
    · simp only [RunRecord.stateOf, hrow, hrow', Option.map_some, Option.some.injEq] at hopen hrunning
      simp only [RunRecord.stateOf, hrow', Option.map_some, Option.some.injEq, List.mem_cons,
        List.not_mem_nil, or_false, not_or]
      revert htransition hopen hrunning
      cases row.state <;> simp [stepTransitions] <;> rintro h <;> simp [h]
  by_cases hbefore : v.run.state = .compensating
  · exact kept hbefore
  cases h with
  | @forwardFinished _ step _ _ outcome _ _ _ _ _ _ _ _ _ hstep hstepId _ _ _ _ _ hsettles =>
      cases hsettles with
      | unaffected => exact absurd hstate hbefore
      | completed | failed => simp at hstate
      | compensating _ hfailed =>
          refine ⟨step, hstep, ?_⟩
          simp [RunRecord.stateOf, hstepId, RunRecord.finishedStep_state, hfailed]
  | decided _ _ hwaiting =>
      obtain ⟨hquiet, _, hopen⟩ := hv.waiting hwaiting
      simp only [RunRecord.AllSucceeded, not_forall] at hopen
      obtain ⟨step, hstep, hopen⟩ := hopen
      have hidle := hquiet.steps step hstep
      have hnone : v.stateOf step.id ∉ [some .succeeded, some .running, some .resultUnknown] := by
        simp [hopen, hidle.1, hidle.2]
      exact ⟨step, hstep, hnone⟩
  | compensationFinished _ _ _ _ hsettles =>
      cases hsettles with
      | remaining => exact absurd hstate hbefore
      | completed | failed => simp at hstate
  | recoveredApplied _ _ _ _ _ _ _ hsettles =>
      cases hsettles with
      | unaffected => exact absurd hstate hbefore
      | compensated | compensatedAtOnce | completed => simp at hstate
  | recoveredManual _ _ _ _ _ hrun => rcases hrun with rfl | rfl <;> simp at hstate
  | forwardStarted _ hrun =>
      rcases hrun with ⟨_, rfl⟩ | ⟨hrunning, rfl⟩
      · simp at hstate
      · exact absurd hstate hbefore
  | barrier _ _ _ _ hrun =>
      rcases hrun with ⟨_, rfl⟩ | ⟨_, rfl⟩
      · exact absurd hstate hbefore
      · simp at hstate
  | compensated | cancelled => simp at hstate
  | _ => exact absurd hstate hbefore

end

/-! ## The guarantee -/

variable {cfg : Deployment} {w : World} {runId : String} {v : RunView}

theorem Reachable.unfinished {permitted : World → Action → Prop} (h : Reachable cfg permitted w)
    (hv : w.shared.view runId = some v) : v.run.state = .compensating → v.Unfinished :=
  h.view_induction (P := fun v => v.run.state = .compensating → v.Unfinished)
    (fun _ hinitial _ _ hstate => by simp [hinitial.run] at hstate)
    (fun _ _ _ _ _ _ _ _ hsound _ hmove hunfinished => hmove.unfinished hsound hunfinished) hv

/-- What a step that has begun depends on has succeeded, however indirectly. -/
theorem RunView.Sound.succeeded_of_dependsOn (hv : v.Sound) {id d : String}
    (h : v.definition.DependsOn id d) (hid : v.stateOf id = some .succeeded) :
    v.stateOf d = some .succeeded := by
  have direct {id d : String} (hid : v.stateOf id = some .succeeded)
      (h : ∃ step ∈ v.definition.steps, step.id = id ∧ d ∈ step.dependsOn) :
      v.stateOf d = some .succeeded := by
    obtain ⟨step, hstep, hstepId, hd⟩ := h
    obtain ⟨other, hother, hotherId, hdependencies⟩ :=
      hv.begun id (RunRecord.begun_of_stateOf hid (by decide))
    obtain rfl := v.definition.eq_of_id_eq hother hstep (hotherId.trans hstepId.symm)
    exact hdependencies d hd
  induction h with
  | single hstep => exact direct hid hstep
  | tail _ hstep ih => exact direct ih hstep

/-- The step of a recorded attempt has a key, so that the run and the step are named. -/
theorem Reachable.nonblank {permitted : World → Action → Prop} (h : Reachable cfg permitted w)
    (hv : w.shared.view runId = some v) {a : StepAttempt} (ha : a ∈ v.attempts.rows) :
    cfg.runtime.isBlank runId = false ∧ cfg.runtime.isBlank a.stepId = false := by
  obtain ⟨hstored, rfl⟩ := (Shared.mem_attempts_iff hv).mp ha
  obtain ⟨_, _, _, _, hkey⟩ := h.keyed.attempts a hstored
  exact nonblank_of_logicalIdempotencyKey hkey

/-- Where each compensation tool accepts the arguments of its step, unless that step comes
last, the next compensation of a compensating run can be prepared: its arguments are
accepted, and all that can be wrong is that its deadline is no instant that can be told. -/
theorem compensation_is_preparable (hstrips : cfg.runtime.StripsBlanks)
    (hdumps : cfg.runtime.DumpsPlain) (h : Reachable cfg (World.CreatesUndoable cfg) w)
    (hv : w.shared.view runId = some v) (hstate : v.run.state = .compensating)
    {step : StepDefinition} {rest : List StepDefinition}
    (hpending : pendingCompensations v.definition v.stepRuns v.attempts.rows =
      .ok (step :: rest)) :
    ∃ reference descriptor arguments attempts,
      step.compensationTool = some reference ∧
      cfg.registry.descriptorFor reference.name reference.version = .ok descriptor ∧
      cfg.registry.coerceArguments cfg.runtime reference.name reference.version step.arguments =
        .ok arguments ∧
      readForAttempt w.shared.store runId step.id = .ok attempts ∧
      ∀ startedAt attemptId,
        (∃ prepared, prepareAttempt cfg runId step .compensation attempts startedAt attemptId =
          .ok prepared) ↔ startedAt.Reaches (.finite descriptor.defaultTimeoutSeconds) := by
  have hsound := h.sound hv
  obtain ⟨⟨hstep, hsome, hsucceeded, a, ha, haId, _⟩, _⟩ :=
    (hsound.keyed.mem_pending hpending).mp List.mem_cons_self
  obtain ⟨reference, hreference⟩ := Option.isSome_iff_exists.mp hsome
  obtain ⟨before, payload, created, _, hpermitted, hparsed⟩ := h.view_accepted hv
  have hundoable := hpermitted payload created v.definition rfl hparsed step hstep reference
    hreference
  have haccepted : ∃ arguments, cfg.registry.coerceArguments cfg.runtime reference.name
      reference.version step.arguments = .ok arguments := by
    refine hundoable.resolve_right fun hlast => ?_
    -- then every step would have succeeded
    obtain ⟨other, hother, hopen⟩ := h.unfinished hv hstate
    refine hopen ?_
    by_cases hid : other.id = step.id
    · simp [hid, hsucceeded]
    · simp [hsound.succeeded_of_dependsOn (hlast other hother hid) hsucceeded]
  obtain ⟨arguments, haccepted⟩ := haccepted
  obtain ⟨descriptor, hdescriptor, _⟩ := Except.bind_eq_ok_iff.mp haccepted
  have hread : readForAttempt w.shared.store runId step.id = .ok (v.stepAttempts step.id) := by
    have hrecord := (Shared.view_eq_some_iff.mp hv).1
    obtain ⟨row, hrow, _⟩ := RunRecord.stateOf_eq_some_iff.mp hsucceeded
    simp only [readForAttempt, MemoryStore.runs_get_of_record hrecord,
      MemoryStore.getStep_of_record hrecord, MemoryStore.listStepAttempts_of_record hrecord, hrow]
    rfl
  -- The forward attempt that took effect has a key, and so does its compensation.
  obtain ⟨hrunId, hstepId⟩ := h.nonblank hv ha
  obtain ⟨hname, hversion⟩ :=
    (fromMapping_accepted hparsed step hstep).compensationNamed reference hreference
  obtain ⟨key, hkey, hnonblank⟩ := exists_logicalIdempotencyKey hstrips hdumps hrunId
    (haId ▸ hstepId) hname hversion .compensation
  have htool : toolReferenceOf step .compensation = some reference := hreference
  exact ⟨reference, descriptor, arguments, v.stepAttempts step.id, hreference, hdescriptor,
    haccepted, hread, exists_prepareAttempt_iff htool hdescriptor haccepted hkey hnonblank _⟩

/-- Created runs have compensation tools that accept the arguments of their steps. -/
def createsAccepted (_ : World) (action : Action) : Bool :=
  match action with
  | .createRun payload _ =>
      match WorkflowDefinition.fromMapping Sample.runtime Sample.registry payload with
      | .ok definition => definition.steps.all fun step => step.compensationTool.all fun tool =>
          (Sample.registry.coerceArguments Sample.runtime tool.name tool.version
            step.arguments).toOption.isSome
      | .error _ => true
  | _ => true

theorem createsUndoable_of_createsAccepted {w : World} {action : Action}
    (h : createsAccepted w action) : w.CreatesUndoable Sample.deployment action := by
  intro payload runId definition haction hparsed step hstep reference hreference
  have hparsed : WorkflowDefinition.fromMapping Sample.runtime Sample.registry payload =
      .ok definition := hparsed
  simp only [createsAccepted, haction, hparsed, List.all_eq_true] at h
  have hsome := h step hstep
  rw [hreference, Option.all_some] at hsome
  cases hcoerced : Sample.registry.coerceArguments Sample.runtime reference.name
      reference.version step.arguments with
  | error e => simp [hcoerced, Except.toOption] at hsome
  | ok arguments => exact Or.inl ⟨arguments, hcoerced⟩

namespace Sample

/-- `A` changes something, which `compensation` is to undo when `B` has failed. -/
def undoing (compensation : String) : List Action :=
  create [stepPayload "A" "change" [] (some compensation),
    stepPayload "B" "change" ["A"] none] ++
    runOnce ++ toolSucceeds 0 ++ runOnce ++ toolFails 1 .permanent ++ runOnce

/-- Every tool has thirty seconds. -/
theorem registry_timeout {name version : String} {descriptor : ToolDescriptor}
    (h : registry.descriptorFor name version = .ok descriptor) :
    descriptor.defaultTimeoutSeconds = 30 := by
  simp only [ToolRegistry.descriptorFor, registry] at h
  split at h
  case h_2 => cases h
  case h_1 found hfound =>
    obtain rfl := Except.ok.inj h
    split_ifs at hfound <;> exact Option.some.inj hfound ▸ rfl

/-- What `_run_compensation_once` would prepare next can be prepared. -/
def preparesNext (v : RunView) : Option Bool :=
  (pendingCompensations v.definition v.stepRuns v.attempts.rows).toOption.bind fun pending =>
    pending.head?.map fun step => (prepareAttempt deployment "r" step .compensation
      (v.stepAttempts step.id) 0 "n").toOption.isSome

end Sample

open Sample in
theorem compensation_is_preparable_undoing :
    ∃ v step rest attempts prepared,
      (World.after deployment 0 (undoing "undo")).shared.view "r" = some v ∧
      v.run.state = .compensating ∧
      pendingCompensations v.definition v.stepRuns v.attempts.rows = .ok (step :: rest) ∧
      readForAttempt (World.after deployment 0 (undoing "undo")).shared.store "r" step.id =
        .ok attempts ∧
      prepareAttempt deployment "r" step .compensation attempts 0 "n" = .ok prepared := by
  have hreachable : Reachable deployment (World.CreatesUndoable deployment)
      (World.after deployment 0 (undoing "undo")) :=
    reachable_of_passes (fun _ _ => createsUndoable_of_createsAccepted) (.initial 0)
      (by decide +kernel)
  obtain ⟨v, hv, hstate, hnext⟩ := exists_view (w := World.after deployment 0 (undoing "undo"))
    (P := fun v => v.run.state = .compensating ∧ (preparesNext v).isSome) (by decide +kernel)
  cases hpending : pendingCompensations v.definition v.stepRuns v.attempts.rows with
  | error e => simp [preparesNext, hpending, Except.toOption] at hnext
  | ok pending =>
      cases pending with
      | nil => simp [preparesNext, hpending, Except.toOption] at hnext
      | cons step rest =>
          obtain ⟨reference, descriptor, _, attempts, hreference, hdescriptor, _, hread, hprepared⟩ :=
            compensation_is_preparable runtime_stripsBlanks runtime_dumpsPlain hreachable hv hstate
              hpending
          have hreaches : Timestamp.Reaches 0 (.finite descriptor.defaultTimeoutSeconds) := by
            rw [registry_timeout hdescriptor]
            exact ⟨30, rfl, by decide +kernel⟩
          obtain ⟨prepared, hprepared⟩ := (hprepared 0 "n").mpr hreaches
          exact ⟨v, step, rest, attempts, prepared, hv, hstate, hpending, hread, hprepared⟩

open Sample in
/-- The tool that is to undo `A` asks for a revision that the arguments of `A` do not have:
nothing is prepared, in this iteration or the next. -/
theorem compensating_for_ever :
    (∃ v, (World.after deployment 0 (undoing "revert")).shared.view "r" = some v ∧
      v.run.state = .compensating ∧ preparesNext v = some false) ∧
    ∃ v, (World.after deployment 0 (undoing "revert" ++ Sample.runOnce)).shared.view "r" = some v ∧
      v.run.state = .compensating ∧ ∀ a ∈ v.attempts.rows, a.phase ≠ .compensation :=
  ⟨exists_view (by decide +kernel), exists_view (by decide +kernel)⟩

end ChangePilot
