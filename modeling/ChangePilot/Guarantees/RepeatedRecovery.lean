import ChangePilot.Guarantees.Recovery

/-!
# Recovery that is called again

A call of recovery can raise for one reason only: of a run with two attempts that are
unknown it has decided one, and has ended the run with that, so that the run can no longer
be handed over for the other.  Such a run is not gone through again.  Calls of recovery
therefore raise at most once for each open run, and the first one that returns leaves
nothing to be recovered.
-/

namespace ChangePilot

variable {cfg : Deployment} {payloads : Set Value}

/-! ## What an activity keeps -/

/-- What every move of a run keeps is kept by all that the process does. -/
theorem Shared.Carries.keeps {α : Type} {I : RunView → Prop}
    (hmove : ∀ {v : RunView} {cause : Cause} {v' : RunView}, RunMove cfg v cause v' → I v → I v')
    {p : Prog Op (fun op => Except Error op.Ans) (Except Error α)} {s t : Shared}
    {result : Except Error α}
    (hends : Prog.Interleaved (exec cfg) (Relation.ReflTransGen Shared.Passes) p s result t) :
    s.Carries cfg p → (∀ {runId v}, s.view runId = some v → I v) →
      t.Carries cfg (.ret result : Prog Op (fun op => Except Error op.Ans) (Except Error α)) ∧
        ∀ {runId v}, t.view runId = some v → I v := by
  induction hends with
  | ret => exact fun hs hI => ⟨hs, hI⟩
  | @call op k s s' t inputs result hpassed _ ih =>
      intro hs hI
      have hs' := hs.still hpassed
      refine ih (hs'.perform inputs) fun {runId v''} hv'' => ?_
      have hpassedI {v' : RunView} (hv' : s'.view runId = some v') : I v' := by
        obtain ⟨v, hv, htick⟩ := Shared.exists_move_of_passes cfg hs.wellFormed hpassed hv'
        exact hmove htick (hI hv)
      have hadvances := exec_advances hs'.wellFormed op hs'.enabled inputs
      rcases hadvances.runs runId with ⟨hagree, hinFlight⟩ | ⟨v, w, hv, hw, hchange⟩
      · exact hpassedI ((Shared.view_congr hagree hadvances.definitions hinFlight
          hadvances.latest).symm.trans hv'')
      · obtain rfl := Option.some.inj (hw.symm.trans hv'')
        exact hmove hchange (hpassedI hv)

/-! ## Runs that recovery can load -/

/-- Nothing is in flight, and the runs have their rows and registered tools. -/
structure Shared.Loadable (cfg : Deployment) (s : Shared) : Prop where
  restarted : s.Restarted
  stocked : ∀ {runId : String} {v : RunView}, s.view runId = some v → v.Stocked
  accepted : ∀ key definition, s.store.definitions.get key = some definition →
    ∀ step ∈ definition.steps, step.Accepted cfg
  unambiguous : s.store.Unambiguous

theorem Reachable.loadable (hdigests : cfg.DigestsTell payloads) {w : World}
    (h : Reachable cfg (fun w action => w.RecoversAtRestart action ∧
      World.CreatesOf payloads w action) w) (hresting : w.shared.Resting) :
    w.shared.Loadable cfg := by
  have hlive := (h.mono fun _ _ hpermitted => hpermitted.2).live hdigests
  refine ⟨(h.mono fun _ _ hpermitted => hpermitted.1).restarted hresting, hlive.stocked,
    fun key definition hdefinition => ?_, hlive.unambiguous⟩
  obtain ⟨payload, _, hparsed⟩ := hlive.accepted key definition hdefinition
  exact fromMapping_accepted hparsed

namespace Shared.Loadable

variable {s t u : Shared} {runId : String} {v v' : RunView} {e : Error}

theorem accepts (hs : s.Loadable cfg) (hv : s.view runId = some v) :
    ∀ step ∈ v.definition.steps, step.Accepted cfg :=
  hs.accepted _ _ (MemoryStore.definitionOf_of_record (view_eq_some_iff.mp hv).1)

/-- A call of recovery keeps it. -/
theorem recovered {result : Except Error (List String)} (hs : s.Loadable cfg)
    (hends : recoverNonterminalRuns.EndsAlone cfg s result t) : t.Loadable cfg := by
  obtain ⟨ht, hdefinitions, -, -⟩ := recoverNonterminalRuns_ends hs.restarted hends
  have hcarries : s.Carries cfg (ExceptT.run recoverNonterminalRuns) :=
    ⟨hs.restarted.wellFormed, hs.unambiguous, recoverNonterminalRuns_safe⟩
  obtain ⟨hcarries', hstocked⟩ := Shared.Carries.keeps (I := fun v => v.Stocked)
    (fun hmove hv => hmove.stocked hv) hends hcarries hs.stocked
  exact ⟨ht, hstocked, fun key definition hdefinition =>
    hs.accepted key definition (hdefinitions ▸ hdefinition), hcarries'.unambiguous⟩

/-- The unit of work for an attempt that is unknown raises only if the run has ended. -/
theorem ended_of_stopsAt (ht : t.Loadable cfg) (hv : t.view runId = some v)
    {rest : List (String × StepAttempt)}
    (hids : ∀ id ∈ rest.map Prod.fst, ∃ step ∈ v.definition.steps, step.id = id)
    (hleft : v.Unresolved rest) (h : t.StopsAt cfg runId rest e) :
    v.run.state.Terminal ∧
      e = .invalidTransition "run" v.run.state.value RunState.manualIntervention.value := by
  obtain ⟨stepId, attempt, others, answers, instant, rfl, hraises⟩ := h
  obtain ⟨step, hstep, rfl⟩ := hids stepId (by simp)
  obtain ⟨row, hrow⟩ := Option.isSome_iff_exists.mp (ht.stocked hv step hstep)
  have hunresolved := hleft.unresolved _ List.mem_cons_self row hrow
  rcases recoverAttempt_cases (view_eq_some_iff.mp hv).1 (ht.restarted.runs hv) (ht.stocked hv)
    (ht.accepts hv) ht.unambiguous hstep hrow hunresolved answers instant with
    ⟨_, hok⟩ | ⟨hended, herror⟩
  · cases hraises.symm.trans hok
  · exact ⟨hended, Except.error.inj (hraises.symm.trans herror)⟩

end Shared.Loadable

/-! ## Calls that raise -/

/-- Of two steps whose attempts were unknown the run has lost one only, and it has ended. -/
structure RunRecord.HalfDecided (v v' : RunRecord) (e : Error) : Prop where
  opened : ¬ v.run.state.Terminal
  ended : v'.run.state.Terminal
  decided : ∃ step ∈ v.definition.steps, ¬ v.Resolved step.id ∧ v'.Resolved step.id
  left : ∃ step ∈ v.definition.steps, ¬ v.Resolved step.id ∧ ¬ v'.Resolved step.id
  error : e = .invalidTransition "run" v'.run.state.value RunState.manualIntervention.value

/-- A call that stops at a run has ended it, and cannot hand it over for the next attempt. -/
theorem Shared.Loadable.halfDecided {s t u : Shared} {runId : String} {e : Error}
    (hs : s.Loadable cfg) (ht : t.Loadable cfg)
    (hsame : u.store.record runId = s.store.record runId) (h : u.Stops cfg runId e t)
    {v : RunRecord} (hv : s.store.record runId = some v) :
    ∃ v', t.store.record runId = some v' ∧ v.HalfDecided v' e := by
  have hstocked : v.Stocked := hs.stocked (Shared.view_of_record hv)
  cases h with
  | unreadable hread =>
      obtain ⟨listed, hlisted⟩ := pendingRecovery_isOk (hsame.trans hv) hstocked
      cases hread.symm.trans hlisted
  | @undecidable w w' done rest hw hopen hpending hw' hworked hleft hstops =>
      obtain rfl : v = w.toRunRecord :=
        Option.some.inj ((hsame.trans hv).symm.trans (Shared.view_eq_some_iff.mp hw).1)
      obtain ⟨_, _, hunresolved, hids, hmem⟩ := Shared.mem_pendingRecovery hw hpending
      have hids' : ∀ id ∈ rest.map Prod.fst, ∃ step ∈ w'.definition.steps, step.id = id := by
        rw [hworked.definition]
        exact fun id hid => hids id (by simp [hid])
      obtain ⟨hended, herror⟩ := ht.ended_of_stopsAt hw' hids' hleft hstops
      refine ⟨w'.toRunRecord, (Shared.view_eq_some_iff.mp hw').1, hopen, hended, ?_, ?_, herror⟩
      · -- had nothing been decided, the run would still be open
        have hdone : done.map Prod.fst ≠ [] := by
          intro hnone
          rcases hworked.state with hstate | ⟨hsome, _⟩
          · exact hopen (hstate ▸ hended)
          · exact hsome hnone
        obtain ⟨id, hid⟩ := List.exists_mem_of_ne_nil _ hdone
        have hid' : id ∈ (done ++ rest).map Prod.fst := by simp [hid]
        obtain ⟨step, hstep, rfl⟩ := hids id hid'
        exact ⟨step, hstep, (hmem step hstep).mp hid', hworked.resolved _ hid⟩
      · obtain ⟨stepId, attempt, others, _, _, rfl, _⟩ := hstops
        have hid' : stepId ∈ (done ++ (stepId, attempt) :: others).map Prod.fst := by simp
        obtain ⟨step, hstep, rfl⟩ := hids stepId hid'
        refine ⟨step, hstep, (hmem step hstep).mp hid', fun hresolved => ?_⟩
        have hrow := hworked.stocked hstocked step (hworked.definition ▸ hstep)
        obtain ⟨row, hrow⟩ := Option.isSome_iff_exists.mp hrow
        have hnot := hleft.unresolved _ List.mem_cons_self row hrow
        cases hnot.symm.trans (hresolved row hrow)

/-- What is left of the runs by a call that raises. -/
theorem Shared.Loadable.raises {s t : Shared} {e : Error} (hs : s.Loadable cfg)
    (hends : recoverNonterminalRuns.EndsAlone cfg s (.error e) t) :
    (∀ other, other ∉ nonterminalRuns s.store → t.store.Agree other s.store) ∧
      ∃ runId ∈ nonterminalRuns s.store,
        (∃ v v', s.store.record runId = some v ∧ t.store.record runId = some v' ∧
          v.HalfDecided v' e) ∧
        ∀ other ∈ nonterminalRuns s.store, other ≠ runId → t.store.Agree other s.store ∨
          ∃ v', t.store.record other = some v' ∧ v'.AtRest := by
  obtain ⟨-, -, hagree, ⟨_, hok, _⟩ | ⟨_, runId, herror, hstops⟩⟩ :=
    recoverNonterminalRuns_ends hs.restarted hends
  · cases hok
  obtain rfl := Except.error.inj herror
  obtain ⟨v, hv, _⟩ := (Shared.mem_nonterminalRuns hs.restarted.wellFormed).mp hstops.mem
  obtain ⟨u, _, hsame, hwhy⟩ := hstops.stops
  obtain ⟨v', hv', hhalf⟩ := hs.halfDecided (hs.recovered hends) hsame hwhy hv
  exact ⟨hagree, runId, hstops.mem, ⟨v, v', hv, hv', hhalf⟩, hstops.others⟩

/-- If a call of recovery at restart raises, then for one open run only: it has decided an
unknown attempt of the run and ended the run with it, and another attempt of the run is
still unknown.  Every other run is as it was, or is at rest. -/
theorem recovery_raises_after_half {w : World} (hdigests : cfg.DigestsTell payloads)
    (h : Reachable cfg (fun w action => w.RecoversAtRestart action ∧
      World.CreatesOf payloads w action) w) (hresting : w.shared.Resting) {e : Error} {t : Shared}
    (hends : recoverNonterminalRuns.EndsAlone cfg w.shared (.error e) t) :
    ∃ runId, (∃ v v', w.shared.store.record runId = some v ∧ t.store.record runId = some v' ∧
        v.HalfDecided v' e) ∧
      ∀ other, other ≠ runId → t.store.Agree other w.shared.store ∨
        ∃ v', t.store.record other = some v' ∧ v'.AtRest := by
  obtain ⟨hagree, runId, _, hhalf, hothers⟩ := (h.loadable hdigests hresting).raises hends
  refine ⟨runId, hhalf, fun other hother => ?_⟩
  by_cases hmem : other ∈ nonterminalRuns w.shared.store
  · exact hothers other hmem hother
  · exact Or.inl (hagree other hmem)

namespace Sample

theorem struck_reachable : Reachable deployment (fun w action => w.RecoversAtRestart action ∧
    World.CreatesOf (created struck) w action) (World.after deployment 0 struck) := by
  refine reachable_of_forall fun action haction w => ⟨?_, fun payload runId hcreates =>
    ⟨runId, hcreates ▸ haction⟩⟩
  rintro rfl
  simp [struck, create, runOnce, call, crash] at haction

theorem struck_digestsTell : deployment.DigestsTell (created struck) := by
  have hunique : ∀ other ∈ created struck, other = .ofFields [("definition_id", .str "d"),
      ("version", .int 1), ("steps", .list [stepPayload "A" "change" [] (some "undo"),
        stepPayload "B" "change" [] none])] := by
    rintro other ⟨runId, hmem⟩
    simp only [struck, create, runOnce, call, crash, List.mem_append, List.mem_cons,
      List.mem_replicate, List.not_mem_nil, or_false, reduceCtorEq, and_false] at hmem
    exact (Action.createRun.inj hmem).1
  exact digestsTell_of_unique hunique

/-- What recovery raises when neither tool can tell. -/
def twice : Error :=
  .invalidTransition "run" RunState.manualIntervention.value RunState.manualIntervention.value

theorem recovered_raises : recoverNonterminalRuns.EndsAlone deployment
    (World.after deployment 0 struck).shared (.error twice) (recovered none).2 := by
  have hends := recovered_endsAlone none
  rwa [show (recovered none).1 = .error twice by decide +kernel] at hends

end Sample

open Sample in
theorem recovery_raises_after_half_struck :
    ∃ t runId v v', recoverNonterminalRuns.EndsAlone deployment
      (World.after deployment 0 struck).shared (.error twice) t ∧
      (World.after deployment 0 struck).shared.store.record runId = some v ∧
      t.store.record runId = some v' ∧ v.HalfDecided v' twice := by
  obtain ⟨runId, ⟨v, v', hv, hv', hhalf⟩, -⟩ :=
    recovery_raises_after_half struck_digestsTell struck_reachable struck_resting recovered_raises
  exact ⟨_, runId, v, v', recovered_raises, hv, hv', hhalf⟩

/-! ## Calls one after the other -/

/-- Calls of recovery, each by itself, with what they come to. -/
inductive Shared.RecoversInTurn (cfg : Deployment) :
    Shared → List (Except Error (List String)) → Shared → Prop
  | none (s : Shared) : RecoversInTurn cfg s [] s
  | call {s u t : Shared} {result : Except Error (List String)}
      {results : List (Except Error (List String))}
      (hends : recoverNonterminalRuns.EndsAlone cfg s result u)
      (hrest : RecoversInTurn cfg u results t) : RecoversInTurn cfg s (result :: results) t

/-- A call that raises leaves fewer runs open. -/
theorem Shared.Loadable.length_nonterminalRuns_lt {s t : Shared} {e : Error}
    (hs : s.Loadable cfg) (hends : recoverNonterminalRuns.EndsAlone cfg s (.error e) t) :
    (nonterminalRuns t.store).length < (nonterminalRuns s.store).length := by
  have ht := (hs.recovered hends).restarted.wellFormed
  have hdefinitions := (recoverNonterminalRuns_ends hs.restarted hends).2.1
  obtain ⟨hagree, stopped, hmem, ⟨v, v', _, hv', hhalf⟩, _⟩ := hs.raises hends
  have hsubset : nonterminalRuns t.store ⊆ (nonterminalRuns s.store).erase stopped := by
    intro runId hrunId
    obtain ⟨w', hw', hopen⟩ := (Shared.mem_nonterminalRuns ht).mp hrunId
    have hne : runId ≠ stopped := by
      rintro rfl
      obtain rfl := Option.some.inj (hv'.symm.trans hw')
      exact hopen hhalf.ended
    refine (List.mem_erase_of_ne hne).mpr (by_contra fun hnot => ?_)
    -- a run that was not gone through is as it was, and so it was open
    rw [(hagree runId hnot).record_eq hdefinitions] at hw'
    exact hnot ((Shared.mem_nonterminalRuns hs.restarted.wellFormed).mpr ⟨w', hw', hopen⟩)
  have hle := (t.store.nodup_nonterminalRuns.subperm hsubset).length_le
  have hpos := List.length_pos_of_mem hmem
  rw [List.length_erase_of_mem hmem] at hle
  omega

/-- After a call that has returned, the others do nothing. -/
theorem Shared.RecoversInTurn.of_recovered {s t : Shared}
    {results : List (Except Error (List String))} (h : s.RecoversInTurn cfg results t) :
    s.Restarted → s.store.Recovered →
      results = List.replicate results.length (.ok []) ∧ t.store.Recovered := by
  induction h with
  | none => exact fun _ hrecovered => ⟨rfl, hrecovered⟩
  | call hends _ ih =>
      intro hs hrecovered
      obtain ⟨rfl, hsame⟩ := returns_of_recovered hs hrecovered hends
      obtain ⟨hresults, ht⟩ := ih (recoverNonterminalRuns_ends hs hends).1 (hsame ▸ hrecovered)
      exact ⟨by rw [List.length_cons, List.replicate_succ, ← hresults], ht⟩

/-- The calls raise at first, no more often than there are open runs; then one returns. -/
theorem Shared.RecoversInTurn.settles {s t : Shared}
    {results : List (Except Error (List String))} (h : s.RecoversInTurn cfg results t) :
    s.Loadable cfg → ∃ errors : List Error,
      errors.length ≤ (nonterminalRuns s.store).length ∧
        (results = errors.map .error ∨ t.store.Recovered ∧ ∃ ids count,
          results = errors.map .error ++ .ok ids :: List.replicate count (.ok [])) := by
  induction h with
  | none => exact fun _ => ⟨[], Nat.zero_le _, Or.inl rfl⟩
  | @call s u t result results hends hrest ih =>
      intro hs
      have hu := hs.recovered hends
      cases result with
      | ok ids =>
          have hrecovered := (recovered_of_returns hs.restarted hends).1
          obtain ⟨hresults, ht⟩ := hrest.of_recovered hu.restarted hrecovered
          exact ⟨[], Nat.zero_le _, Or.inr ⟨ht, ids, results.length, by rw [← hresults]; rfl⟩⟩
      | error e =>
          obtain ⟨errors, hlength, hresults⟩ := ih hu
          have hlt := hs.length_nonterminalRuns_lt hends
          refine ⟨e :: errors, by rw [List.length_cons]; omega, ?_⟩
          rcases hresults with rfl | ⟨ht, ids, count, rfl⟩
          · exact Or.inl rfl
          · exact Or.inr ⟨ht, ids, count, rfl⟩

/-- Recovery that is called again and again after a restart raises at first, at most once
for each open run; then a call returns, and with it every run is at rest and the calls
after it return without having done anything. -/
theorem repeated_recovery_settles {w : World} (hdigests : cfg.DigestsTell payloads)
    (h : Reachable cfg (fun w action => w.RecoversAtRestart action ∧
      World.CreatesOf payloads w action) w) (hresting : w.shared.Resting)
    {results : List (Except Error (List String))} {t : Shared}
    (hcalls : w.shared.RecoversInTurn cfg results t) :
    ∃ errors : List Error, errors.length ≤ (nonterminalRuns w.shared.store).length ∧
      (results = errors.map .error ∨
        (∀ runId v, t.store.record runId = some v → v.AtRest) ∧ ∃ ids count,
          results = errors.map .error ++ .ok ids :: List.replicate count (.ok [])) := by
  obtain ⟨errors, hlength, hresults⟩ := hcalls.settles (h.loadable hdigests hresting)
  exact ⟨errors, hlength, hresults.imp_right fun ⟨hrecovered, hreturns⟩ =>
    ⟨fun runId v hv => (hrecovered runId v hv).1, hreturns⟩⟩

open Sample in
/-- It is called once more. -/
theorem Sample.recovered_again :
    ∃ t, (World.after deployment 0 struck).shared.RecoversInTurn deployment
      [.error twice, .ok []] t ∧ (t.store.record "r").isSome := by
  have hends : recoverNonterminalRuns.EndsAlone deployment (recovered none).2 _ _ :=
    Prog.Interleaved.of_run (fun _ => .refl) _ (answering none) _
  rw [show (Prog.run (exec deployment) (ExceptT.run recoverNonterminalRuns) (answering none)
    (recovered none).2).1 = .ok [] by decide +kernel] at hends
  exact ⟨_, .call recovered_raises (.call hends (.none _)), by decide +kernel⟩

open Sample in
theorem repeated_recovery_settles_struck :
    ∃ t, (World.after deployment 0 struck).shared.RecoversInTurn deployment
      [.error twice, .ok []] t ∧ ∃ v, t.store.record "r" = some v ∧ v.AtRest := by
  obtain ⟨t, hcalls, hsome⟩ := recovered_again
  obtain ⟨v, hv⟩ := Option.isSome_iff_exists.mp hsome
  obtain ⟨errors, -, hraised | ⟨hatRest, -⟩⟩ :=
    repeated_recovery_settles struck_digestsTell struck_reachable struck_resting hcalls
  · have hreturns : (Except.ok [] : Except Error (List String)) ∈ errors.map .error :=
      hraised ▸ by simp
    simp at hreturns
  · exact ⟨t, hcalls, v, hv, hatRest "r" v hv⟩

end ChangePilot
