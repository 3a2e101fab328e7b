import ChangePilot.Guarantees.RecoveryDecisions
import ChangePilot.System.Turns

/-!
# What a crash has left is recovered

A call of recovery at restart, with nobody else writing to the store meanwhile.  If it
returns, no open run has anything running or unknown, and the runs that had nothing are as
they were.  It raises only for a run of which it has ended what it cannot tell, and of
which it cannot tell yet another attempt; called again, it does not stop there.

A call has two loops, and each has a lemma by induction on its list: `recoverEach_ends` for
the unresolved attempts of one run, `recoverRuns_ends` for the runs.  Both follow the loop
to its end or to the first decision that raises, and compare the store that is left with
the one in which the loop began.  What is carried along is that only the run at hand has
been written to (`Shared.Touches`), and that what is still in its list is still unresolved.
-/

namespace ChangePilot

variable {cfg : Deployment}

/-- The process performs the activity, and nobody else writes to the store meanwhile. -/
abbrev Activity.EndsAlone {α : Type} (cfg : Deployment) (activity : Activity α) (s : Shared)
    (result : Except Error α) (t : Shared) : Prop :=
  Prog.Interleaved (exec cfg) (Relation.ReflTransGen Shared.Passes) (ExceptT.run activity) s
    result t

/-! ## The state at a restart -/

/-- Nothing is in flight, and every run is as it may be then. -/
structure Shared.Restarted (s : Shared) : Prop where
  wellFormed : s.WellFormed
  runs : ∀ {runId : String} {v : RunView}, s.view runId = some v → v.Restarted
  resting : s.Resting

theorem Reachable.restarted {w : World} (h : Reachable cfg World.RecoversAtRestart w)
    (hresting : w.shared.Resting) : w.shared.Restarted where
  wellFormed := h.good.wellFormed
  resting := hresting
  runs hv :=
    { sound := h.sound hv
      logged := h.logged hv
      tracked := h.tracked hv
      steady := h.steady hv
      tellsUnknown := h.tellsUnknown hv
      compensates := h.compensatesMeanwhile hv
      drained := (Shared.view_eq_some_iff.mp hv).2.1.trans (hresting _) }

namespace Shared

variable {s s' t : Shared} {runId : String}

/-- What passes on its own moves the runs only as time does. -/
theorem exists_move_of_passes (cfg : Deployment) (hs : s.WellFormed)
    (h : Relation.ReflTransGen Passes s s') {v' : RunView} (hv' : s'.view runId = some v') :
    ∃ v, s.view runId = some v ∧ RunMove cfg v .other v' := by
  have hstill := still_of_passes cfg h hs
  have hrecord := (view_eq_some_iff.mp hv').1
  rw [hstill.store] at hrecord
  obtain ⟨v, hv⟩ : ∃ v, s.view runId = some v := ⟨_, view_of_record hrecord⟩
  obtain rfl := Option.some.inj ((hstill.view hv).symm.trans hv')
  refine ⟨v, hv, .tick ?_⟩
  rw [(view_eq_some_iff.mp hv).2.2]
  exact (hstill.rely hs).latest

/-- Tools that end and the clock change nothing of it. -/
theorem Restarted.passed (hs : s.Restarted) (cfg : Deployment)
    (h : Relation.ReflTransGen Passes s s') : s'.Restarted := by
  have hstill := still_of_passes cfg h hs.wellFormed
  have hresting : s'.Resting := fun runId => (hstill.inFlight runId).trans (hs.resting runId)
  refine ⟨hstill.wellFormed hs.wellFormed, fun {runId v'} hv' => ?_, hresting⟩
  obtain ⟨v, hv, hmove⟩ := exists_move_of_passes cfg hs.wellFormed h hv'
  exact hmove.restarted (hs.runs hv) (WellFormed.keyed hv')
    ((view_eq_some_iff.mp hv').2.1.trans (hresting runId))

/-- A unit of recovery keeps it. -/
theorem Restarted.recovered (hs : s.Restarted) {stepId : String} {attempt : StepAttempt}
    (henabled : (Op.recoverAttempt runId stepId attempt).Enabled cfg s) (inputs : Inputs) :
    (exec cfg (.recoverAttempt runId stepId attempt) inputs s).2.Restarted := by
  have hadvances :=
    exec_advances hs.wellFormed (.recoverAttempt runId stepId attempt) henabled inputs
  have hresting : (exec cfg (.recoverAttempt runId stepId attempt) inputs s).2.Resting :=
    fun runId => (inStore_inFlight _ runId).trans (hs.resting runId)
  refine ⟨hadvances.wellFormed hs.wellFormed, fun {other v'} hv' => ?_, hresting⟩
  rcases hadvances.runs other with ⟨hagree, hinFlight⟩ | ⟨v, w, hv, hw, hmove⟩
  · exact hs.runs ((view_congr hagree hadvances.definitions hinFlight
      hadvances.latest).symm.trans hv')
  · obtain rfl := Option.some.inj (hw.symm.trans hv')
    exact hmove.restarted (hs.runs hv) (WellFormed.keyed hv')
      ((view_eq_some_iff.mp hv').2.1.trans (hresting other))

end Shared

/-! ## What is made of one run -/

/-- The steps have been decided, and the others are as they were. -/
structure RunRecord.Worked (v : RunRecord) (ids : List String) (v' : RunRecord) : Prop where
  definition : v'.definition = v.definition
  state : v'.run.state = v.run.state ∨
    (ids ≠ [] ∧ v'.run.state ∈ [.succeeded, .compensated, .manualIntervention])
  resolved : ∀ id ∈ ids, v'.Resolved id
  others : ∀ id, id ∉ ids → v'.steps id = v.steps id ∧ v'.stepAttempts id = v.stepAttempts id
  rows : ∀ id, (v'.steps id).isSome = (v.steps id).isSome

namespace RunRecord

variable {v u v' : RunRecord} {ids more : List String} {id : String} {attempt : StepAttempt}

theorem Worked.refl (v : RunRecord) : v.Worked [] v :=
  ⟨rfl, Or.inl rfl, by simp, fun _ _ => ⟨rfl, rfl⟩, fun _ => rfl⟩

theorem Resolved.congr (h : v.Resolved id) (hsteps : u.steps id = v.steps id)
    (hattempts : u.stepAttempts id = v.stepAttempts id) : u.Resolved id := by
  intro row hrow
  rw [hattempts]
  exact h row (hsteps ▸ hrow)

theorem Worked.trans (h : v.Worked ids u) (hmore : u.Worked more v') :
    v.Worked (ids ++ more) v' where
  definition := hmore.definition.trans h.definition
  state := by
    rcases hmore.state with hsame | ⟨hne, hended⟩
    · rw [hsame]
      exact h.state.imp_right fun ⟨hne, hended⟩ => ⟨by simp [hne], hended⟩
    · exact Or.inr ⟨by simp [hne], hended⟩
  resolved id hid := by
    by_cases hlater : id ∈ more
    · exact hmore.resolved id hlater
    · have hearlier := (List.mem_append.mp hid).resolve_right hlater
      exact (h.resolved id hearlier).congr (hmore.others id hlater).1 (hmore.others id hlater).2
  others id hid := by
    obtain ⟨hearlier, hlater⟩ := not_or.mp (mt List.mem_append.mpr hid)
    exact ⟨(hmore.others id hlater).1.trans (h.others id hearlier).1,
      (hmore.others id hlater).2.trans (h.others id hearlier).2⟩
  rows id := (hmore.rows id).trans (h.rows id)

theorem Worked.stocked (h : v.Worked ids v') (hv : v.Stocked) : v'.Stocked := by
  intro step hstep
  rw [h.rows]
  exact hv step (h.definition ▸ hstep)

theorem Decides.worked (h : v.Decides id attempt v') (hresolved : v'.Resolved id) :
    v.Worked [id] v' where
  definition := h.definition
  state := h.state.imp_right fun hended => ⟨by simp, hended⟩
  resolved other hother := List.mem_singleton.mp hother ▸ hresolved
  others other hother := h.others (mt List.mem_singleton.mpr hother)
  rows other := by
    obtain ⟨row, changed, hrow, hsteps, _⟩ := h.steps
    rw [hsteps]
    by_cases hother : other = id
    · simp [hother, hrow]
    · rw [Function.update_of_ne hother]

end RunRecord

/-! ## The attempts of one run -/

namespace Shared

variable {s t u : Shared} {runId : String}

theorem inStore_eq_ok {α : Type} {body : UowM (Exit α)} {a : α}
    (h : s.inStore body = (.ok a, u)) : s.store.transact body = .ok (a, u.store) := by
  unfold inStore at h
  split at h
  case h_1 => cases h
  case h_2 heq =>
    obtain ⟨ha, rfl⟩ := Prod.ext_iff.mp h
    obtain rfl := Except.ok.inj ha
    exact heq

theorem inStore_eq_error {α : Type} {body : UowM (Exit α)} {e : Error}
    (h : s.inStore body = (.error e, u)) : s.store.transact body = .error e ∧ u = s := by
  unfold inStore at h
  split at h
  case h_1 heq =>
    obtain ⟨he, rfl⟩ := Prod.ext_iff.mp h
    obtain rfl := Except.error.inj he
    exact ⟨heq, rfl⟩
  case h_2 => cases h

/-- Only the one run has been written to. -/
structure Touches (s : Shared) (runId : String) (t : Shared) : Prop where
  definitions : t.store.definitions = s.store.definitions
  others : ∀ other, other ≠ runId → t.store.Agree other s.store

theorem Touches.of_store (h : t.store = s.store) : s.Touches runId t where
  definitions := by rw [h]
  others other _ := h ▸ MemoryStore.Agree.refl _

theorem Touches.trans (hst : s.Touches runId t) (htu : t.Touches runId u) :
    s.Touches runId u where
  definitions := htu.definitions.trans hst.definitions
  others other hother := (htu.others other hother).trans (hst.others other hother)

/-- The unit of work for the first of these attempts raises. -/
def StopsAt (cfg : Deployment) (runId : String) (rest : List (String × StepAttempt)) (e : Error)
    (t : Shared) : Prop :=
  ∃ stepId attempt others answers instant, rest = (stepId, attempt) :: others ∧
    t.store.transact (recoverAttempt cfg answers runId stepId attempt instant) = .error e

end Shared

section

variable {s t : Shared} {runId : String}

/-- Of the pending attempts some are decided, in their order; if not all are, the next one
has raised. -/
theorem recoverEach_ends {result : Except Error Unit} (pending : List (String × StepAttempt)) :
    ∀ {s : Shared} {v : RunView}, s.Restarted → s.view runId = some v → v.Unresolved pending →
      (recoverEach runId pending).EndsAlone cfg s result t →
      t.Restarted ∧ s.Touches runId t ∧ ∃ done rest v', pending = done ++ rest ∧
        t.view runId = some v' ∧ v.Worked (done.map Prod.fst) v'.toRunRecord ∧
        v'.Unresolved rest ∧
        ((result = .ok () ∧ rest = []) ∨ ∃ e, result = .error e ∧ t.StopsAt cfg runId rest e) := by
  -- one pending attempt after the other
  induction pending with
  | nil =>
      intro s v hs hv hpending hends
      obtain ⟨rfl, rfl⟩ := Routine.interleaved_pure hends
      exact ⟨hs, .of_store rfl, [], [], v, rfl, hv, .refl _, hpending, Or.inl ⟨rfl, rfl⟩⟩
  | cons entry rest ih =>
      obtain ⟨stepId, attempt⟩ := entry
      intro s v hs hv hpending hends
      obtain ⟨s', inputs, hpassed, hexec⟩ := Routine.interleaved_perform_bind hends
      have hstill := Shared.still_of_passes cfg hpassed hs.wellFormed
      have hs' := hs.passed cfg hpassed
      have hv' := hstill.view hv
      have hunresolved : RunView.Unresolved { v with latest := s'.latest } _ :=
        ⟨hpending.state, hpending.unresolved, hpending.distinct⟩
      have hdue := hunresolved.due (Shared.WellFormed.keyed hv')
      rcases hexec with ⟨_, u, hexec, hrest⟩ | ⟨e, hexec, rfl⟩
      · -- the attempt is decided, and the others are decided after it
        have henabled : (Op.recoverAttempt runId stepId attempt).Enabled cfg s' := by
          intro w hw
          obtain rfl := Option.some.inj (hv'.symm.trans hw)
          exact hdue
        have hu : u.Restarted := by
          have hrecovered := hs'.recovered henabled inputs
          rwa [hexec] at hrecovered
        -- the decision is about this run, and this attempt of it
        obtain ⟨hdefinitions, hothers, decided, record, hrecord, hdecides, hno, hphase⟩ :=
          MemoryStore.decides_of_recoverAttempt (Shared.view_eq_some_iff.mp hv').1
            (Shared.inStore_eq_ok hexec)
        obtain ⟨row, _, hrow, _⟩ := hdecides.steps
        have hfound := hdue.unresolved row decided hrow hdecides.attempts.1 hno hphase
        have hworked := hdecides.worked (hdecides.resolved (hs'.runs hv') hrow hfound)
        -- deciding one attempt leaves the others as they are
        have hleft : RunView.Unresolved (u.viewOf runId record) rest := by
          refine hunresolved.recovered ⟨fun hstate => ?_, fun id hid => (hdecides.others hid).1,
            fun id hid => (hdecides.others hid).2⟩
          rcases hdecides.state with hsame | hended
          · exact hsame ▸ hstate
          · intro hfailed
            rw [show record.run.state = .failed from hfailed] at hended
            simp at hended
        obtain ⟨ht, htouches, done, left, v'', hsplit, hv'', hworked', hleft', hresult⟩ :=
          ih hu (Shared.view_of_record hrecord) hleft hrest
        -- no other run and no definition was touched
        have htouched : s.Touches runId u :=
          ⟨hdefinitions.trans (by rw [hstill.store]), fun other hother => by
            have := hothers other hother
            rwa [hstill.store] at this⟩
        exact ⟨ht, htouched.trans htouches, (stepId, attempt) :: done, left, v'',
          by rw [hsplit, List.cons_append], hv'', hworked.trans hworked', hleft', hresult⟩
      -- the first decision that raises ends the loop
      · obtain ⟨hraises, rfl⟩ := Shared.inStore_eq_error hexec
        exact ⟨hs', .of_store hstill.store, [], _, _, rfl, hv', .refl _, hunresolved,
          Or.inr ⟨e, rfl, stepId, attempt, rest, inputs.answers, t.clock, rfl, hraises⟩⟩

end

/-! ## One run -/

/-- The run has ended, or nothing of it is running or unknown. -/
def RunRecord.AtRest (v : RunRecord) : Prop := v.run.state.Terminal ∨ v.Quiet

theorem RunView.Restarted.atRest_iff {v : RunView} (hv : v.Restarted) :
    v.AtRest ↔ v.run.state.Terminal ∨ ∀ step ∈ v.definition.steps, v.Resolved step.id := by
  by_cases hopen : v.run.state.Terminal
  · exact iff_of_true (Or.inl hopen) (Or.inl hopen)
  · exact or_congr_right (hv.quiet_iff hopen)

section

variable {s t : Shared} {runId : String} {v : RunView}

/-- What recovery lists is what is not resolved. -/
theorem Shared.mem_pendingRecovery (hv : s.view runId = some v)
    {pending : List (String × StepAttempt)}
    (h : pendingRecovery s.store runId = .ok (some pending)) :
    ¬ v.run.state.Terminal ∧ v.Stocked ∧ v.Unresolved pending ∧
      (∀ id ∈ pending.map Prod.fst, ∃ step ∈ v.definition.steps, step.id = id) ∧
      ∀ step ∈ v.definition.steps, step.id ∈ pending.map Prod.fst ↔ ¬ v.Resolved step.id := by
  have hrecord := (view_eq_some_iff.mp hv).1
  -- the run is open, and its listing comes from the steps of its definition
  have hlisted : ¬ v.run.state.Terminal ∧
      unresolvedAttempts s.store runId v.definition.steps = .ok pending := by
    simp only [pendingRecovery, MemoryStore.runs_get_of_record hrecord,
      MemoryStore.definitionOf_of_record hrecord] at h
    split at h
    case isTrue => cases h
    case isFalse hopen =>
      obtain ⟨listed, hlisted, hpending⟩ := Except.map_eq_ok_iff.mp h
      obtain rfl := Option.some.inj hpending
      exact ⟨hopen, hlisted⟩
  obtain ⟨hopen, hlisted⟩ := hlisted
  refine ⟨hopen, fun step hstep => ?_, (unresolved_of_pendingRecovery h).of_view hv,
    fun id hid => ?_, fun step hstep => ?_⟩
  · rw [← MemoryStore.getStep_of_record hrecord]
    exact (unresolvedAttempts_eq_ok_iff.mp hlisted).1 step hstep
  · exact List.mem_map.mp ((unresolvedAttempts_sublist hlisted).subset hid)
  have hfilter := (unresolvedAttempts_eq_ok_iff.mp hlisted).2
  simp only [MemoryStore.getStep_of_record hrecord,
    MemoryStore.listStepAttempts_of_record hrecord] at hfilter
  constructor
  -- a listed step has an attempt that is not resolved
  · intro hmem hresolved
    obtain ⟨⟨_, attempt⟩, hentry, rfl⟩ := List.mem_map.mp hmem
    obtain ⟨other, _, hother⟩ := List.mem_filterMap.mp (hfilter ▸ hentry)
    obtain ⟨row, hrow, hother⟩ := Option.bind_eq_some_iff.mp hother
    obtain ⟨found, hfound, heq⟩ := Option.map_eq_some_iff.mp hother
    obtain ⟨hid, _⟩ := Prod.ext_iff.mp heq
    rw [show other.id = step.id from hid] at hrow hfound
    exact absurd (hfound.symm.trans (hresolved row hrow)) (by simp)
  -- a step that is not resolved has a row and such an attempt
  · intro hnot
    obtain ⟨row, hunresolved⟩ := not_forall.mp hnot
    obtain ⟨hrow, hne⟩ := Classical.not_imp.mp hunresolved
    obtain ⟨attempt, hattempt⟩ := Option.ne_none_iff_exists'.mp hne
    refine List.mem_map.mpr ⟨(step.id, attempt), hfilter ▸ List.mem_filterMap.mpr
      ⟨step, hstep, ?_⟩, rfl⟩
    exact Option.bind_eq_some_iff.mpr ⟨row, hrow, Option.map_eq_some_iff.mpr
      ⟨attempt, hattempt, rfl⟩⟩

theorem Shared.terminal_of_pendingRecovery (hv : s.view runId = some v)
    (h : pendingRecovery s.store runId = .ok none) : v.run.state.Terminal := by
  have hrecord := (view_eq_some_iff.mp hv).1
  simp only [pendingRecovery, MemoryStore.runs_get_of_record hrecord,
    MemoryStore.definitionOf_of_record hrecord] at h
  split at h
  case isTrue hterminal => exact hterminal
  case isFalse =>
    obtain ⟨_, _, hnone⟩ := Except.map_eq_ok_iff.mp h
    cases hnone

/-- Why a call of recovery stops at a run. -/
inductive Shared.Stops (cfg : Deployment) (runId : String) (e : Error) (s t : Shared) : Prop
  | unreadable (hread : pendingRecovery s.store runId = .error e) (hsame : t.store = s.store)
  | undecidable {v v' : RunView} {done rest : List (String × StepAttempt)}
      (hv : s.view runId = some v) (hopen : ¬ v.run.state.Terminal)
      (hpending : pendingRecovery s.store runId = .ok (some (done ++ rest)))
      (hv' : t.view runId = some v') (hworked : v.Worked (done.map Prod.fst) v'.toRunRecord)
      (hleft : v'.Unresolved rest) (hstops : t.StopsAt cfg runId rest e) : Stops cfg runId e s t

/-- A run is at rest after its recovery, which has nothing to do for a run at rest. -/
theorem recoverRun_ends {result : Except Error Bool} (hs : s.Restarted)
    (hv : s.view runId = some v) (hends : (recoverRun runId).EndsAlone cfg s result t) :
    t.Restarted ∧ s.Touches runId t ∧
      ((∃ changed v', result = .ok changed ∧ t.view runId = some v' ∧ v'.AtRest ∧
          (¬ v.run.state.Terminal → v'.Stocked) ∧ (changed = true ↔ ¬ v.AtRest) ∧
          (changed = false → t.store = s.store)) ∨
        ∃ e, result = .error e ∧ s.Stops cfg runId e t) := by
  obtain ⟨s', inputs, hpassed, hexec⟩ := Routine.interleaved_perform_bind hends
  have hstill := Shared.still_of_passes cfg hpassed hs.wellFormed
  have hs' := hs.passed cfg hpassed
  have hv' := hstill.view hv
  have hrestarted := hs.runs hv
  -- the listing only reads
  rcases hexec with ⟨listed, u, hexec, hrest⟩ | ⟨e, hexec, rfl⟩
  case inr =>
    obtain ⟨hread, rfl⟩ :=
      Prod.ext_iff.mp (show (pendingRecovery s'.store runId, s') = _ from hexec)
    exact ⟨hs', .of_store hstill.store, Or.inr ⟨e, rfl, .unreadable
      (hstill.store ▸ hread) hstill.store⟩⟩
  obtain ⟨hread, rfl⟩ := Prod.ext_iff.mp (show (pendingRecovery s'.store runId, s') = _ from hexec)
  dsimp only at hread
  rcases listed with _ | pending
  · obtain ⟨rfl, rfl⟩ := Routine.interleaved_pure hrest
    have hterminal := Shared.terminal_of_pendingRecovery hv (hstill.store ▸ hread)
    exact ⟨hs', .of_store hstill.store, Or.inl ⟨false, _, rfl, hv', Or.inl hterminal,
      fun hopen => absurd hterminal hopen,
      iff_of_false (by simp) (not_not.mpr (Or.inl hterminal)), fun _ => hstill.store⟩⟩
  obtain ⟨hopen, hstocked, hpending, hids, hmem⟩ :=
    Shared.mem_pendingRecovery hv (hstill.store ▸ hread)
  have hchanges : (!pending.isEmpty) = true ↔ ¬ v.AtRest := by
    rw [hrestarted.atRest_iff, not_or, and_iff_right hopen]
    cases pending with
    | nil =>
        refine iff_of_false (by simp) (not_not.mpr fun step hstep => ?_)
        by_contra hnot
        simpa using (hmem step hstep).mpr hnot
    | cons entry rest =>
        refine iff_of_true (by simp) fun hall => ?_
        obtain ⟨step, hstep, hid⟩ := hids entry.1 (by simp)
        exact (hmem step hstep).mp (by simp [hid]) (hall step hstep)
  have hunresolved : RunView.Unresolved { v with latest := s'.latest } pending :=
    ⟨hpending.state, hpending.unresolved, hpending.distinct⟩
  have hstart : s.Touches runId s' := .of_store hstill.store
  rcases Routine.interleaved_bind hrest with ⟨_, u, heach, hend⟩ | ⟨e, heach, rfl⟩
  · obtain ⟨rfl, rfl⟩ := Routine.interleaved_pure hend
    obtain ⟨hu, htouches, done, rest, v', hsplit, hu', hworked, _, hresult⟩ :=
      recoverEach_ends pending hs' hv' hunresolved heach
    obtain ⟨_, rfl⟩ := hresult.resolve_right nofun
    rw [List.append_nil] at hsplit
    subst hsplit
    refine ⟨hu, hstart.trans htouches, Or.inl ⟨_, v', rfl, hu', ?_, fun _ => ?_, hchanges,
      fun hnone => ?_⟩⟩
    · refine (hu.runs hu').atRest_iff.mpr (or_iff_not_imp_left.mpr fun _ step hstep => ?_)
      have hstep : step ∈ v.definition.steps := hworked.definition ▸ hstep
      by_cases hid : step.id ∈ pending.map Prod.fst
      · exact hworked.resolved _ hid
      · have hresolved : v.Resolved step.id := not_not.mp (mt (hmem step hstep).mpr hid)
        exact hresolved.congr (hworked.others _ hid).1 (hworked.others _ hid).2
    · exact hworked.stocked hstocked
    · obtain rfl : pending = [] := by simpa using hnone
      obtain ⟨-, rfl⟩ := Routine.interleaved_pure heach
      exact hstill.store
  · obtain ⟨ht, htouches, done, rest, v', rfl, hv'', hworked, hleft, hresult⟩ :=
      recoverEach_ends pending hs' hv' hunresolved heach
    obtain ⟨e', he, hstops⟩ := hresult.resolve_left nofun
    obtain rfl := Except.error.inj he
    exact ⟨ht, hstart.trans htouches, Or.inr ⟨e, rfl, .undecidable hv hopen
      (hstill.store ▸ hread) hv'' hworked hleft hstops⟩⟩

end

/-! ## All runs -/

namespace MemoryStore

/-- These runs have been recovered, and `recovered` are those that were not at rest. -/
structure Recovers (runIds recovered : List String) (store next : MemoryStore) : Prop where
  subset : recovered ⊆ runIds
  unchanged : recovered = [] → next = store
  changed : ∀ runId ∈ runIds, ∀ v, store.record runId = some v →
    (runId ∈ recovered ↔ ¬ v.AtRest) ∧ (v.AtRest → next.Agree runId store)
  atRest : ∀ runId ∈ runIds, ∀ v, store.record runId = some v →
    ∃ v', next.record runId = some v' ∧ v'.AtRest ∧ (¬ v.run.state.Terminal → v'.Stocked)

/-- The call has come to one of the runs and stopped there. -/
structure StopsAmong (cfg : Deployment) (runIds : List String) (stopped : String) (e : Error)
    (store : MemoryStore) (t : Shared) : Prop where
  mem : stopped ∈ runIds
  stops : ∃ u : Shared, u.Restarted ∧ u.store.record stopped = store.record stopped ∧
    u.Stops cfg stopped e t
  others : ∀ runId ∈ runIds, runId ≠ stopped → t.store.Agree runId store ∨
    ∃ v', t.store.record runId = some v' ∧ v'.AtRest

/-- One of the runs has been recovered, and the others are as they were. -/
structure RecoversOne (runId : String) (changed : Bool) (v v' : RunRecord)
    (store next : MemoryStore) : Prop where
  before : store.record runId = some v
  after : next.record runId = some v'
  definitions : next.definitions = store.definitions
  others : ∀ other, other ≠ runId → next.Agree other store
  atRest : v'.AtRest
  stocked : ¬ v.run.state.Terminal → v'.Stocked
  works : changed = true ↔ ¬ v.AtRest
  unchanged : changed = false → next = store

section

variable {store middle next : MemoryStore} {runId : String} {changed : Bool} {v v' : RunRecord}
  {rest recovered : List String}

theorem RecoversOne.record_eq (h : store.RecoversOne runId changed v v' middle)
    (hnew : runId ∉ rest) {other : String} (hother : other ∈ rest) :
    middle.record other = store.record other :=
  (h.others other (ne_of_mem_of_not_mem hother hnew)).record_eq h.definitions

/-- What the first run has come to, whatever becomes of the others. -/
theorem RecoversOne.record_later (h : store.RecoversOne runId changed v v' middle)
    (hagree : next.Agree runId middle) (hdefinitions : next.definitions = middle.definitions) :
    next.record runId = some v' :=
  (hagree.record_eq hdefinitions).trans h.after

theorem Recovers.cons (hone : store.RecoversOne runId changed v v' middle)
    (hrest : middle.Recovers rest recovered next) (hnew : runId ∉ rest)
    (hagree : next.Agree runId middle) (hdefinitions : next.definitions = middle.definitions) :
    store.Recovers (runId :: rest) (if changed then runId :: recovered else recovered) next where
  subset := by
    cases changed
    · exact List.Subset.trans hrest.subset (List.subset_cons_self _ _)
    · exact List.cons_subset_cons _ hrest.subset
  unchanged hnone := by
    cases changed
    · exact (hrest.unchanged hnone).trans (hone.unchanged rfl)
    · simp at hnone
  changed other hother w hw := by
    rcases List.mem_cons.mp hother with rfl | hother
    -- the run that was worked on first
    · obtain rfl := Option.some.inj (hone.before.symm.trans hw)
      cases changed
      · refine ⟨iff_of_false (fun hmem => hnew (hrest.subset hmem)) fun hnot => ?_,
          fun _ => hone.unchanged rfl ▸ hagree⟩
        exact absurd (hone.works.mpr hnot) (by simp)
      · exact ⟨iff_of_true (by simp) (hone.works.mp rfl),
          fun hatRest => absurd hatRest (hone.works.mp rfl)⟩
    -- a later one, which the first has not touched
    · obtain ⟨hiff, hkeeps⟩ :=
        hrest.changed other hother w ((hone.record_eq hnew hother).trans hw)
      have hne : other ≠ runId := ne_of_mem_of_not_mem hother hnew
      refine ⟨?_, fun hatRest => (hkeeps hatRest).trans (hone.others other hne)⟩
      rw [← hiff]
      cases changed <;> simp [hne]
  atRest other hother w hw := by
    rcases List.mem_cons.mp hother with rfl | hother
    · obtain rfl := Option.some.inj (hone.before.symm.trans hw)
      exact ⟨_, hone.record_later hagree hdefinitions, hone.atRest, hone.stocked⟩
    · exact hrest.atRest other hother w ((hone.record_eq hnew hother).trans hw)

theorem StopsAmong.cons {stopped : String} {e : Error} {t : Shared}
    (hone : store.RecoversOne runId changed v v' middle)
    (hrest : middle.StopsAmong cfg rest stopped e t) (hnew : runId ∉ rest)
    (hagree : t.store.Agree runId middle) (hdefinitions : t.store.definitions = middle.definitions) :
    store.StopsAmong cfg (runId :: rest) stopped e t where
  mem := List.mem_cons_of_mem _ hrest.mem
  stops := by
    obtain ⟨u, hu, hsame, hstops⟩ := hrest.stops
    exact ⟨u, hu, hsame.trans (hone.record_eq hnew hrest.mem), hstops⟩
  others other hother hne := by
    rcases List.mem_cons.mp hother with rfl | hother
    · exact Or.inr ⟨_, hone.record_later hagree hdefinitions, hone.atRest⟩
    · exact (hrest.others other hother hne).imp_left fun h =>
        h.trans (hone.others other (ne_of_mem_of_not_mem hother hnew))

end

end MemoryStore

section

variable {s t : Shared}

/-- The runs are recovered one by one, up to the one that the call stops at. -/
theorem recoverRuns_ends (runIds : List String) :
    ∀ {s : Shared} {result : Except Error (List String)}, s.Restarted → runIds.Nodup →
      (∀ runId ∈ runIds, ∃ v, s.store.record runId = some v) →
      (recoverRuns runIds).EndsAlone cfg s result t →
      t.Restarted ∧ t.store.definitions = s.store.definitions ∧
        (∀ other, other ∉ runIds → t.store.Agree other s.store) ∧
        ((∃ recovered, result = .ok recovered ∧ s.store.Recovers runIds recovered t.store) ∨
          ∃ e stopped, result = .error e ∧ s.store.StopsAmong cfg runIds stopped e t) := by
  induction runIds with
  | nil =>
      intro s result hs _ _ hends
      obtain ⟨rfl, rfl⟩ := Routine.interleaved_pure hends
      exact ⟨hs, rfl, fun _ _ => .refl _,
        Or.inl ⟨[], rfl, ⟨List.Subset.refl _, fun _ => rfl, by simp, by simp⟩⟩⟩
  -- the first run, and then the others in the store that it leaves
  | cons runId rest ih =>
      intro s result hs hnodup hknown hends
      obtain ⟨hnew, hnodup⟩ := List.nodup_cons.mp hnodup
      obtain ⟨v, hv⟩ := hknown runId List.mem_cons_self
      have hends : (recoverRun runId >>= fun changed => recoverRuns rest >>= fun recovered =>
        pure (if changed then runId :: recovered else recovered)).EndsAlone cfg s result t := hends
      rcases Routine.interleaved_bind hends with ⟨changed, u, hrun, hrest⟩ | ⟨e, hrun, rfl⟩
      · obtain ⟨hu, htouches, hresult⟩ := recoverRun_ends hs (Shared.view_of_record hv) hrun
        obtain ⟨_, v', hok, hv', hatRest, hstocked, hchanged, hsame⟩ := hresult.resolve_right nofun
        obtain rfl := Except.ok.inj hok
        have hone : s.store.RecoversOne runId changed v v'.toRunRecord u.store :=
          ⟨hv, (Shared.view_eq_some_iff.mp hv').1, htouches.definitions, htouches.others, hatRest,
            hstocked, hchanged, hsame⟩
        -- the other runs are known still
        have hknown' : ∀ other ∈ rest, ∃ v, u.store.record other = some v := by
          intro other hother
          rw [hone.record_eq hnew hother]
          exact hknown other (List.mem_cons_of_mem _ hother)
        -- what is not listed is touched by neither
        have hkept (hagree : ∀ other, other ∉ rest → t.store.Agree other u.store) :
            ∀ other, other ∉ runId :: rest → t.store.Agree other s.store := by
          intro other hother
          obtain ⟨hne, hother⟩ := not_or.mp (mt List.mem_cons.mpr hother)
          exact (hagree other hother).trans (htouches.others other hne)
        -- whether the others are recovered to the end
        rcases Routine.interleaved_bind hrest with ⟨recovered, u', hothers, hend⟩ |
          ⟨e, hothers, rfl⟩
        · obtain ⟨rfl, rfl⟩ := Routine.interleaved_pure hend
          obtain ⟨ht, hdefinitions, hagree, hresult⟩ := ih hu hnodup hknown' hothers
          rcases hresult with ⟨_, hok, hrecovers⟩ | ⟨_, _, herror, _⟩
          case inr => cases herror
          obtain rfl := Except.ok.inj hok
          have hall := MemoryStore.Recovers.cons hone hrecovers hnew (hagree runId hnew) hdefinitions
          exact ⟨ht, hdefinitions.trans htouches.definitions, hkept hagree, Or.inl ⟨_, rfl, hall⟩⟩
        · obtain ⟨ht, hdefinitions, hagree, hresult⟩ := ih hu hnodup hknown' hothers
          rcases hresult with ⟨_, hok, _⟩ | ⟨e', stopped, herror, hstops⟩
          · cases hok
          obtain rfl := Except.error.inj herror
          have hall := MemoryStore.StopsAmong.cons hone hstops hnew (hagree runId hnew) hdefinitions
          exact ⟨ht, hdefinitions.trans htouches.definitions, hkept hagree,
            Or.inr ⟨e, stopped, rfl, hall⟩⟩
      -- the first run raised, and the others were not looked at
      · obtain ⟨ht, htouches, hresult⟩ := recoverRun_ends hs (Shared.view_of_record hv) hrun
        rcases hresult with ⟨_, _, hok, _⟩ | ⟨e', he, hstops⟩
        · cases hok
        obtain rfl := Except.error.inj he
        exact ⟨ht, htouches.definitions, fun other hother =>
          htouches.others other (List.ne_of_not_mem_cons hother), Or.inr ⟨e, runId, rfl,
            List.mem_cons_self, ⟨s, hs, rfl, hstops⟩, fun other _ hother =>
              Or.inl (htouches.others other hother)⟩⟩

theorem MemoryStore.nodup_nonterminalRuns (store : MemoryStore) : (nonterminalRuns store).Nodup :=
  (store.runs.sorted.sublist List.filter_sublist).map _ fun _ _ h => h.ne

/-- The open runs are those that recovery goes through. -/
theorem Shared.mem_nonterminalRuns (hs : s.WellFormed) {runId : String} :
    runId ∈ nonterminalRuns s.store ↔
      ∃ v, s.store.record runId = some v ∧ ¬ v.run.state.Terminal := by
  simp only [nonterminalRuns, MemoryStore.listRuns, List.mem_map, List.mem_filter,
    decide_eq_true_eq]
  constructor
  · rintro ⟨run, ⟨hmem, hopen⟩, rfl⟩
    have hrun := KeyedTable.get_key hmem
    obtain ⟨v, hv⟩ := hs.record_isSome hrun
    obtain rfl := Option.some.inj ((MemoryStore.runs_get_of_record hv).symm.trans hrun)
    exact ⟨v, hv, hopen⟩
  · rintro ⟨v, hv, hopen⟩
    obtain ⟨hmem, hid⟩ := (KeyedTable.get_eq_some_iff _).mp (MemoryStore.runs_get_of_record hv)
    exact ⟨v.run, ⟨hmem, hopen⟩, hid⟩

/-- A call goes through the open runs. -/
theorem recoverNonterminalRuns_ends {result : Except Error (List String)} (hs : s.Restarted)
    (hends : recoverNonterminalRuns.EndsAlone cfg s result t) :
    t.Restarted ∧ t.store.definitions = s.store.definitions ∧
      (∀ other, other ∉ nonterminalRuns s.store → t.store.Agree other s.store) ∧
      ((∃ recovered, result = .ok recovered ∧
          s.store.Recovers (nonterminalRuns s.store) recovered t.store) ∨
        ∃ e stopped, result = .error e ∧
          s.store.StopsAmong cfg (nonterminalRuns s.store) stopped e t) := by
  obtain ⟨s', inputs, hpassed, hexec⟩ := Routine.interleaved_perform_bind hends
  have hstill := Shared.still_of_passes cfg hpassed hs.wellFormed
  have hs' := hs.passed cfg hpassed
  rcases hexec with ⟨listed, u, hexec, hrest⟩ | ⟨e, hexec, _⟩
  case inr => cases (Prod.ext_iff.mp hexec).1
  obtain ⟨hlisted, rfl⟩ := Prod.ext_iff.mp
    (show (Except.ok (nonterminalRuns s'.store), s') = _ from hexec)
  obtain rfl := Except.ok.inj hlisted
  have hends' := recoverRuns_ends (nonterminalRuns s'.store) hs' s'.store.nodup_nonterminalRuns
    (fun runId hrunId => ((Shared.mem_nonterminalRuns hs'.wellFormed).mp hrunId).imp
      fun _ h => h.1) hrest
  rwa [hstill.store] at hends'

/-! ## Calls that return -/

/-- Every run is at rest, and the open ones can be loaded. -/
def MemoryStore.Recovered (store : MemoryStore) : Prop :=
  ∀ runId v, store.record runId = some v → v.AtRest ∧ (¬ v.run.state.Terminal → v.Stocked)

theorem recovered_of_returns {ids : List String} (hs : s.Restarted)
    (hends : recoverNonterminalRuns.EndsAlone cfg s (.ok ids) t) :
    t.store.Recovered ∧
      (∀ runId, runId ∈ ids ↔ ∃ v, s.store.record runId = some v ∧ ¬ v.AtRest) ∧
      ∀ runId, runId ∉ ids → t.store.Agree runId s.store := by
  obtain ⟨-, hdefinitions, hagree, ⟨_, hok, hrecovers⟩ | ⟨_, _, herror, _⟩⟩ :=
    recoverNonterminalRuns_ends hs hends
  case inr => cases herror
  obtain rfl := Except.ok.inj hok
  have hopen {runId : String} {v : RunRecord} (hv : s.store.record runId = some v)
      (hnot : ¬ v.run.state.Terminal) : runId ∈ nonterminalRuns s.store :=
    (Shared.mem_nonterminalRuns hs.wellFormed).mpr ⟨v, hv, hnot⟩
  refine ⟨fun runId v' hv' => ?_, fun runId => ⟨fun hmem => ?_, ?_⟩, fun runId hnot => ?_⟩
  -- a listed run is at rest by what was done, any other by being terminal
  · by_cases hmem : runId ∈ nonterminalRuns s.store
    · obtain ⟨v, hv, hnot⟩ := (Shared.mem_nonterminalRuns hs.wellFormed).mp hmem
      obtain ⟨v'', hv'', hatRest, hstocked⟩ := hrecovers.atRest runId hmem v hv
      obtain rfl := Option.some.inj (hv''.symm.trans hv')
      exact ⟨hatRest, fun _ => hstocked hnot⟩
    · have hv := ((hagree runId hmem).record_eq hdefinitions).symm.trans hv'
      have hterminal : v'.run.state.Terminal := not_not.mp (mt (hopen hv) hmem)
      exact ⟨Or.inl hterminal, fun hnot => absurd hterminal hnot⟩
  · have hlisted := hrecovers.subset hmem
    obtain ⟨v, hv, _⟩ := (Shared.mem_nonterminalRuns hs.wellFormed).mp hlisted
    exact ⟨v, hv, (hrecovers.changed runId hlisted v hv).1.mp hmem⟩
  · rintro ⟨v, hv, hnot⟩
    have hlisted := hopen hv fun hterminal => hnot (Or.inl hterminal)
    exact (hrecovers.changed runId hlisted v hv).1.mpr hnot
  -- a listed run that is not reported was at rest before
  · by_cases hmem : runId ∈ nonterminalRuns s.store
    · obtain ⟨v, hv, _⟩ := (Shared.mem_nonterminalRuns hs.wellFormed).mp hmem
      obtain ⟨hiff, hkeeps⟩ := hrecovers.changed runId hmem v hv
      exact hkeeps (not_not.mp (mt hiff.mpr hnot))
    · exact hagree runId hmem

theorem pendingRecovery_isOk {store : MemoryStore} {runId : String} {v : RunRecord}
    (hrecord : store.record runId = some v) (hstocked : v.Stocked) :
    ∃ listed, pendingRecovery store runId = .ok listed := by
  simp only [pendingRecovery, MemoryStore.runs_get_of_record hrecord,
    MemoryStore.definitionOf_of_record hrecord]
  split
  · exact ⟨none, rfl⟩
  · have hrows : ∀ step ∈ v.definition.steps, (store.getStep runId step.id).isSome := by
      intro step hstep
      rw [MemoryStore.getStep_of_record hrecord]
      exact hstocked step hstep
    exact ⟨_, by rw [unresolvedAttempts_eq_ok_iff.mpr ⟨hrows, rfl⟩]; rfl⟩

/-- A call that finds every run at rest does nothing. -/
theorem returns_of_recovered {result : Except Error (List String)} (hs : s.Restarted)
    (hrecovered : s.store.Recovered)
    (hends : recoverNonterminalRuns.EndsAlone cfg s result t) :
    result = .ok [] ∧ t.store = s.store := by
  obtain ⟨-, -, -, ⟨recovered, rfl, hrecovers⟩ | ⟨e, stopped, rfl, hstops⟩⟩ :=
    recoverNonterminalRuns_ends hs hends
  · have hnone : recovered = [] := by
      refine List.eq_nil_iff_forall_not_mem.mpr fun runId hmem => ?_
      have hlisted := hrecovers.subset hmem
      obtain ⟨v, hv, _⟩ := (Shared.mem_nonterminalRuns hs.wellFormed).mp hlisted
      exact (hrecovers.changed runId hlisted v hv).1.mp hmem (hrecovered runId v hv).1
    exact ⟨by rw [hnone], hrecovers.unchanged hnone⟩
  · exfalso
    obtain ⟨v, hv, hopen⟩ := (Shared.mem_nonterminalRuns hs.wellFormed).mp hstops.mem
    obtain ⟨hatRest, hstocked⟩ := hrecovered stopped v hv
    obtain ⟨u, hu, hrecord, hwhy⟩ := hstops.stops
    rw [hv] at hrecord
    cases hwhy with
    | unreadable hread =>
        obtain ⟨listed, hlisted⟩ := pendingRecovery_isOk hrecord (hstocked hopen)
        exact absurd (hread.symm.trans hlisted) (by simp)
    | @undecidable w _ done rest hw _ hpending _ _ _ hstopsAt =>
        obtain rfl : v = w.toRunRecord :=
          Option.some.inj (hrecord.symm.trans (Shared.view_eq_some_iff.mp hw).1)
        obtain ⟨stepId, attempt, others, _, _, rfl, _⟩ := hstopsAt
        obtain ⟨_, _, _, hids, hmem⟩ := Shared.mem_pendingRecovery hw hpending
        obtain ⟨step, hstep, hid⟩ := hids stepId (by simp)
        have hresolved := ((hu.runs hw).atRest_iff.mp hatRest).resolve_left hopen step hstep
        exact (hmem step hstep).mp (by simp [hid]) hresolved

end

/-- If a call of recovery at restart returns, every run has ended or has nothing running or
unknown; the runs that it names are those that had, the others are as they were, and
another call does nothing. -/
theorem recovery_is_complete {w : World} (h : Reachable cfg World.RecoversAtRestart w)
    (hresting : w.shared.Resting) {ids : List String} {t : Shared}
    (hends : recoverNonterminalRuns.EndsAlone cfg w.shared (.ok ids) t) :
    (∀ runId v, t.store.record runId = some v → v.AtRest) ∧
      (∀ runId, runId ∈ ids ↔ ∃ v, w.shared.store.record runId = some v ∧ ¬ v.AtRest) ∧
      (∀ runId, runId ∉ ids → t.store.Agree runId w.shared.store) ∧
      ∀ again u, recoverNonterminalRuns.EndsAlone cfg t again u →
        again = .ok [] ∧ u.store = t.store := by
  have hs := h.restarted hresting
  have ht := (recoverNonterminalRuns_ends hs hends).1
  obtain ⟨hrecovered, hids, hothers⟩ := recovered_of_returns hs hends
  exact ⟨fun runId v hv => (hrecovered runId v hv).1, hids, hothers,
    fun _ _ hagain => returns_of_recovered ht hrecovered hagain⟩

namespace Sample

/-- The process crashes with `A` and `B` in flight. -/
def struck : List Action :=
  create [stepPayload "A" "change" [] (some "undo"), stepPayload "B" "change" [] none] ++
    runOnce ++ runOnce ++ crash

/-- What a process that nobody disturbs finds when all its probes answer the same. -/
def answering (answer : Option ToolProbeResult) (_ : ℕ) : Inputs :=
  { answers := fun _ => answer }

/-- The process recovers after the crash, by itself. -/
def recovered (answer : Option ToolProbeResult) : Except Error (List String) × Shared :=
  Prog.run (exec deployment) (ExceptT.run recoverNonterminalRuns) (answering answer)
    (World.after deployment 0 struck).shared

theorem struck_resting : (World.after deployment 0 struck).shared.Resting := by
  have hnone : (World.after deployment 0 struck).shared.coordinator.ownedFutures = [] := by
    decide +kernel
  intro runId
  simp [Shared.inFlight, hnone]

theorem recovered_endsAlone (answer : Option ToolProbeResult) :
    recoverNonterminalRuns.EndsAlone deployment (World.after deployment 0 struck).shared
      (recovered answer).1 (recovered answer).2 :=
  Prog.Interleaved.of_run (fun _ => .refl) _ _ _

end Sample

open Sample in
theorem recovery_is_complete_struck :
    ∃ t, recoverNonterminalRuns.EndsAlone deployment (World.after deployment 0 struck).shared
      (.ok ["r"]) t ∧ ∃ v, t.store.record "r" = some v ∧ v.AtRest := by
  have hreachable : Reachable deployment World.RecoversAtRestart
      (World.after deployment 0 struck) :=
    reachable_of_passes (fun _ _ => recoversAtRestart_of_recoversWithoutFutures) (.initial 0)
      (by decide +kernel)
  have hends := recovered_endsAlone (some .notFound)
  rw [show (recovered (some .notFound)).1 = .ok ["r"] by decide +kernel] at hends
  obtain ⟨hatRest, -⟩ := recovery_is_complete hreachable struck_resting hends
  obtain ⟨v, hv⟩ := Option.isSome_iff_exists.mp
    (show ((recovered (some .notFound)).2.store.record "r").isSome by decide +kernel)
  exact ⟨_, hends, v, hv, hatRest "r" v hv⟩

end ChangePilot
