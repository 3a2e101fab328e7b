import ChangePilot.System.Candidates
import ChangePilot.System.Sample

/-!
# Runs do not stall

While a run goes forward and nothing of it is under way, the scheduler has a step to
start.  So no turn ends for lack of candidates without saying what it waits for.
-/

namespace ChangePilot

/-- The promotions of a turn go through, and the scheduler then yields a ready step. -/
def Shared.OffersStep (cfg : Deployment) (runId : String) (s : Shared) : Prop :=
  ∀ now inputs, ∃ promoted definition stepRuns ready,
    exec cfg (.promoteDueRetries runId now) inputs s = (.ok (), s) ∧
    exec cfg (.promoteDependencyReadySteps runId) inputs s = (.ok (), promoted) ∧
    promoted.loadDefinitionAndSteps runId = .ok (definition, stepRuns) ∧
    readySteps definition stepRuns = .ok ready ∧
    ∃ step ∈ ready, stepStateIs stepRuns step.id [.ready]

/-- A turn that comes to no candidates gives another reason than an inconsistency. -/
def Shared.ExplainsBlocking (cfg : Deployment) (payloads : Set Value) (runId : String)
    (run : WorkflowRun) (s : Shared) : Prop :=
  ∀ completed collectionFailed candidates t report t',
    (selectTurn cfg runId run completed collectionFailed).Ends cfg payloads s
      (.ok (.inr candidates)) t →
    candidates.steps = [] →
    (finishTurn cfg runId completed (.inr candidates)).Ends cfg payloads t (.ok report) t' →
    report.blockedReason ≠ some .internalConsistency

section

variable {cfg : Deployment} {payloads : Set Value} {s t : Shared} {runId : String} {v : RunView}
  {thread : Prog Op (fun op => Except Error op.Ans) (Except Error Unit)}

theorem RunView.load_of_stocked (hv : s.view runId = some v) (hstocked : v.Stocked) :
    s.loadDefinitionAndSteps runId = .ok (v.definition, v.stepRuns) := by
  have hrecord := (Shared.view_eq_some_iff.mp hv).1
  have hlength : v.stepRuns.length = v.definition.steps.length := by
    simpa using congrArg List.length (hstocked.stepIds (Shared.WellFormed.keyed hv))
  simp [Shared.loadDefinitionAndSteps, MemoryStore.runs_get_of_record hrecord,
    MemoryStore.definitionOf_of_record hrecord, MemoryStore.stepRuns_of_record hrecord, hlength,
    pure, Except.pure]

/-- Nothing is busy without an unresolved attempt or a step to retry. -/
theorem RunView.Steady.not_busy (hsteady : v.Steady)
    (hresolved : ∀ a ∈ v.attempts.rows, ¬ a.Unresolved) (hretries : v.NoRetries) : ¬ v.Busy := by
  rintro ⟨id, state, hstate, hrow⟩
  have hsupports := hsteady id state hrow
  have waits : ¬ v.Waits id := fun ⟨a, ha, _, _, hunresolved⟩ => hresolved a ha hunresolved
  simp only [List.mem_cons, List.not_mem_nil, or_false] at hstate
  rcases hstate with rfl | rfl | rfl
  · exact hretries id hrow
  · exact waits hsupports
  · exact waits hsupports

theorem World.Live.offersStep (hdigests : cfg.DigestsTell payloads)
    (hlive : World.Live cfg payloads ⟨s, thread⟩) (hv : s.view runId = some v)
    (hsteps : v.definition.steps ≠ []) (hforward : v.run.state.Forward)
    (hresolved : ∀ a ∈ v.attempts.rows, ¬ a.Unresolved) (hretries : v.NoRetries) :
    s.OffersStep cfg runId := by
  intro now inputs
  have hopen : ¬ v.run.state.Terminal := by
    simp only [RunState.Forward, List.mem_cons, List.not_mem_nil, or_false] at hforward
    rcases hforward with h | h <;> rw [h] <;> decide
  obtain ⟨promoted, v', hexec, hv', hrun, hdefinition, hattempts, hstates, hpromoted⟩ :=
    Shared.exec_promoteDependencyReadySteps cfg inputs hv hopen (hlive.stocked hv) hsteps
      hlive.unambiguous
  -- the state after the promotion is one of the system, too
  have hcalling : World.Live cfg payloads
      ⟨s, .call (.promoteDependencyReadySteps runId) fun _ => .ret (.ok ())⟩ :=
    { hlive with good := ⟨hlive.good.wellFormed, fun _ _ _ => ⟨trivial, fun _ => trivial⟩⟩ }
  have hafter := hcalling.step hdigests (.proceed inputs)
    fun payload runId haction => by cases haction
  have hshared : (World.step cfg ⟨s, .call (.promoteDependencyReadySteps runId)
      fun _ => .ret (.ok ())⟩ (.proceed inputs)).shared = promoted := congrArg Prod.snd hexec
  rw [← hshared] at hv'
  have hnotBusy : ¬ v'.Busy := by
    refine (hafter.steady hv').not_busy (hattempts ▸ hresolved) fun id hretry => ?_
    rcases hstates id with hsame | hready
    · exact hretries id (hsame ▸ hretry)
    · rw [hready] at hretry
      cases hretry
  obtain ⟨step, hstep, hstate, hdependencies⟩ :=
    RunView.exists_canStart (hafter.good.wellFormed.sound runId v' hv') (hafter.steady hv')
      (hafter.stocked hv') (hdefinition ▸ hsteps) (hrun ▸ hforward) hnotBusy hpromoted
  have hkeyed : v'.Keyed := Shared.WellFormed.keyed hv'
  obtain ⟨ready, hready⟩ := (hafter.stocked hv').readySteps_isOk hkeyed (hdefinition ▸ hsteps)
  refine ⟨promoted, v'.definition, v'.stepRuns, ready, Shared.exec_promoteDueRetries cfg inputs now hv
    hretries, hexec, ?_, hready, step, (mem_readySteps hready).mpr ⟨hstep,
      (hkeyed.isReady_iff hstep).mpr ⟨Or.inr hstate, hdependencies⟩⟩,
    (hkeyed.stepStateIs_iff hstep).mpr hstate⟩
  rw [← hshared]
  exact RunView.load_of_stocked hv' (hafter.stocked hv')

/-- The reason is read off what justifies that there are no candidates. -/
theorem Candidates.Justified.blockedWithout {candidates : Candidates}
    (h : candidates.Justified runId t) (hnone : candidates.steps = []) (hendures : t.Endures s) :
    blockedWithout (s.store.runs.get runId) candidates.ready candidates.availableCapacity
      candidates.stepRuns ≠ .internalConsistency := by
  unfold ChangePilot.blockedWithout
  dsimp only
  rcases h hnone with hcapacity | ⟨row, hrow, hstate⟩ | hterminal
  · rw [if_pos hcapacity]
    split <;> decide
  · have hany (state : StepState) (hcase : row.state = state) :
        (candidates.stepRuns.any fun stepRun => stepRun.state = state) = true :=
      List.any_eq_true.mpr ⟨row, hrow, by simpa using hcase⟩
    simp only [List.mem_cons, List.not_mem_nil, or_false] at hstate
    rcases hstate with hcase | hcase | hcase <;> simp only [hany _ hcase, if_true] <;>
      (repeat' split) <;> decide
  · obtain ⟨v, hv, hterminal⟩ := hterminal.endures hendures fun _ _ h hkept => hkept.terminal h
    have hrun := MemoryStore.runs_get_of_record (Shared.view_eq_some_iff.mp hv).1
    rw [if_pos (by simp [isTerminal, hrun, hterminal])]
    decide

theorem World.Live.explainsBlocking (hdigests : cfg.DigestsTell payloads)
    (hlive : World.Live cfg payloads ⟨s, thread⟩) (hv : s.view runId = some v)
    (hsteps : v.definition.steps ≠ []) : s.ExplainsBlocking cfg payloads runId v.run := by
  intro completed collectionFailed candidates t report t' hselected hnone hfinished
  -- the process goes on with the turn
  obtain ⟨rest, hrest⟩ : ∃ rest, ExceptT.run ((fun _ => ()) <$>
      runSelected cfg runId (some v.run) completed collectionFailed) =
        ExceptT.run (selectTurn cfg runId v.run completed collectionFailed) >>= rest :=
    ⟨_, by rw [runSelected_eq, ExceptT.run_map, ExceptT.run_bind, map_bind]⟩
  have hturn : World.Live cfg payloads ⟨s, ExceptT.run (selectTurn cfg runId v.run completed
      collectionFailed) >>= rest⟩ :=
    { hlive with good := ⟨hlive.good.wellFormed, hrest ▸ runSelected_safe.map⟩ }
  obtain ⟨hjustified, hlive'⟩ :=
    (selectTurn_comes hv hsteps completed collectionFailed).of_ends hdigests hturn hselected
  -- without candidates the run is read once more
  have hdispatch : finishTurn cfg runId completed (.inr candidates) =
      Activity.getRun runId >>= fun run => pure (blocked runId completed
        (blockedWithout run candidates.ready candidates.availableCapacity candidates.stepRuns)) := by
    rw [Candidates.steps] at hnone
    simp [finishTurn, dispatchCandidates, hnone]
  rw [hdispatch] at hfinished
  obtain ⟨t₁, _, hacted, hended⟩ := Prog.Interleaved.of_call hfinished
  obtain ⟨hreport, _⟩ := Prog.Interleaved.of_ret hended
  have hendures := (hlive'.disturbed hdigests hacted).1
  rw [← Except.ok.inj hreport]
  intro hinconsistent
  exact (hjustified candidates rfl).blockedWithout hnone hendures (Option.some.inj hinconsistent)

end

/-- In every reachable state of a system whose runs are created of these payloads, for
every run with steps: if it is pending or running, without an unresolved attempt and
without a step to retry, then the scheduler yields a ready step after the promotion; and
no turn for it ends with an inconsistency for lack of candidates, which by
`runSelected_eq` is how `run_once` would end with it. -/
theorem runs_do_not_stall {cfg : Deployment} {payloads : Set Value}
    (hdigests : cfg.DigestsTell payloads) {w : World}
    (h : Reachable cfg (World.CreatesOf payloads) w) {runId : String} {v : RunView}
    (hv : w.shared.view runId = some v) (hsteps : v.definition.steps ≠ []) :
    (v.run.state ∈ [RunState.pending, .running] →
      (∀ attempt ∈ v.attempts.rows, ¬ attempt.Unresolved) →
      (∀ id, v.stateOf id ≠ some .retryWait) → w.shared.OffersStep cfg runId) ∧
    w.shared.ExplainsBlocking cfg payloads runId v.run := by
  have hlive := h.live hdigests
  exact ⟨hlive.offersStep hdigests hv hsteps, hlive.explainsBlocking hdigests hv hsteps⟩

/-- `A` is found to have succeeded after a crash, and `B` waits for `A`. -/
def Sample.resumed : List Action :=
  create [stepPayload "A" "change" [] none, stepPayload "B" "change" ["A"] none] ++
    runOnce ++ crash ++ recover (some (.found (.ofFields [])))

/-- The payloads of the runs that the actions create. -/
def Sample.created (actions : List Action) : Set Value :=
  fun payload => ∃ runId, Action.createRun payload runId ∈ actions

open Sample in
theorem Sample.reachable_created (actions : List Action) :
    Reachable deployment (World.CreatesOf (created actions)) (World.after deployment 0 actions) := by
  refine reachable_of_forall fun action haction w payload runId hcreates => ?_
  subst hcreates
  exact ⟨runId, haction⟩

open Sample in
/-- With one payload there is nothing to tell apart. -/
theorem Sample.digestsTell_of_unique {payloads : Set Value} {payload : Value}
    (h : ∀ other ∈ payloads, other = payload) : deployment.DigestsTell payloads := by
  intro first hfirst second hsecond definition stored hdefinition hstored _
  rw [h first hfirst] at hdefinition
  rw [h second hsecond] at hstored
  rw [Except.ok.inj (hdefinition.symm.trans hstored)]

open Sample in
theorem runs_do_not_stall_resumed :
    ∃ v, (World.after deployment 0 resumed).shared.view "r" = some v ∧
      v.run.state = .running ∧ v.stateOf "B" = some .pending ∧
      (World.after deployment 0 resumed).shared.OffersStep deployment "r" ∧
      (World.after deployment 0 resumed).shared.ExplainsBlocking deployment (created resumed) "r"
        v.run := by
  obtain ⟨v, hv, hstate, hpending, hsteps, hresolved, hstates⟩ :=
    exists_view (w := World.after deployment 0 resumed)
      (P := fun v => v.run.state = .running ∧ v.stateOf "B" = some .pending ∧
        v.definition.steps ≠ [] ∧ (∀ attempt ∈ v.attempts.rows, ¬ attempt.Unresolved) ∧
        ∀ step ∈ v.definition.steps, v.stateOf step.id ≠ some .retryWait) (by decide +kernel)
  have hreachable := reachable_created resumed
  have hretries (id : String) : v.stateOf id ≠ some .retryWait := by
    intro hretry
    obtain ⟨step, hstep, rfl, _⟩ := (hreachable.sound hv).begun id ⟨_, hretry, by decide⟩
    exact hstates step hstep hretry
  have hunique : ∀ other ∈ created resumed, other = .ofFields [("definition_id", .str "d"),
      ("version", .int 1), ("steps", .list [stepPayload "A" "change" [] none,
        stepPayload "B" "change" ["A"] none])] := by
    rintro other ⟨runId, hmem⟩
    simp only [resumed, create, Sample.runOnce, recover, crash, call, List.mem_append, List.mem_cons,
      List.mem_replicate, List.not_mem_nil, or_false, reduceCtorEq, and_false] at hmem
    exact (Action.createRun.inj hmem).1
  obtain ⟨hoffers, hexplains⟩ :=
    runs_do_not_stall (digestsTell_of_unique hunique) hreachable hv hsteps
  exact ⟨v, hv, hstate, hpending, hoffers (by simp [hstate]) hresolved hretries, hexplains⟩

end ChangePilot
