import ChangePilot.System.AttemptLog

/-!
# Compensations are started for effects, and once

The attempt that completes a compensation is the last compensation of its step: another
one is started only when none has completed and nothing is in flight.  A run that has
begun to compensate never goes back to forward work.
-/

namespace ChangePilot

/-! ## Completed compensations -/

/-- A completed compensation, and one that is in flight, is the last of its step. -/
structure RunView.LastCompensates (v : RunView) : Prop where
  completed : ∀ a ∈ v.attempts.rows, a.phase = .compensation → a.Completed → v.Last a
  requested : ∀ f ∈ v.inFlight, ∀ a ∈ v.attempts.rows, f.2.IsFor a → a.phase = .compensation →
    v.Last a

section

variable {cfg : Deployment} {cause : Cause} {v v' : RunView}

theorem RunView.LastCompensates.of_same (hv : v.LastCompensates)
    (hattempts : v'.attempts = v.attempts) (hinFlight : v'.inFlight.Sublist v.inFlight) :
    v'.LastCompensates := by
  have last {a : StepAttempt} (h : v.Last a) : v'.Last a :=
    ⟨hattempts ▸ h.mem, fun b hb => h.greatest b (hattempts ▸ hb)⟩
  exact ⟨fun a ha hphase hcompleted => last (hv.completed a (hattempts ▸ ha) hphase hcompleted),
    fun f hf a ha hfor hphase =>
      last (hv.requested f (hinFlight.subset hf) a (hattempts ▸ ha) hfor hphase)⟩

/-- An attempt ends, which is the last one if it is a compensation. -/
theorem RunView.LastCompensates.ended (hv : v.LastCompensates) {old new : StepAttempt}
    (hattempts : v'.attempts = v.attempts.put new) (hold : old ∈ v.attempts.rows)
    (hkey : old.key = new.key) (hlast : new.phase = .compensation → v.Last old)
    (hinFlight : v'.inFlight.Sublist v.inFlight) : v'.LastCompensates := by
  -- No key is new.
  have origin (x : StepAttempt) (hx : x ∈ v'.attempts.rows) :
      ∃ a ∈ v.attempts.rows, a.key = x.key := by
    rcases KeyedTable.mem_put.mp (hattempts ▸ hx) with rfl | ⟨hx, _⟩
    · exact ⟨old, hold, hkey⟩
    · exact ⟨x, hx, rfl⟩
  refine ⟨fun x hx hphase hcompleted => ?_, fun f hf x hx hfor hphase => ?_⟩
  · rcases KeyedTable.mem_put.mp (hattempts ▸ hx) with rfl | ⟨hmem, _⟩
    · exact (hlast hphase).of_key_eq hx hkey origin
    · exact (hv.completed x hmem hphase hcompleted).of_key_eq hx rfl origin
  · obtain ⟨a, ha, hsame⟩ := origin x hx
    have hkind := (StepAttempt.key_eq_iff.mp hsame).2.2.2
    exact (hv.requested f (hinFlight.subset hf) a ha (hfor.of_key_eq hsame)
      (hkind.trans hphase)).of_key_eq hx hsame origin

/-- The attempt that an outcome is written into is the last compensation of its step, if
it is one at all. -/
theorem RunView.LastCompensates.finds (hv : v.LastCompensates) (hsound : v.Sound)
    (hlogged : v.Logged) {outcome : ExecutionOutcome} {phase : ToolExecutionPhase}
    {futures : List (ℕ × ToolExecutionContext)} (hsource : v.Outstanding outcome phase futures)
    {a : StepAttempt} (ha : v.findAttempt outcome.stepId outcome.attemptNo = some a)
    (hphase : a.phase = .compensation) : v.Last a := by
  have hmem := (RunRecord.findAttempt_eq_some ha).1
  rcases hsource.finds hsound ha with ⟨f, hf, hfor, _⟩ | ⟨hrunning, _⟩
  · exact hv.requested f hf a hmem hfor hphase
  · exact hlogged.finished a hmem hrunning

theorem RunMove.lastCompensates (h : RunMove cfg v cause v') (hv : v.LastCompensates)
    (hsound : v.Sound) (hlogged : v.Logged) : v'.LastCompensates := by
  cases h with
  | tick | retriesDue | dependenciesReady | barrier | compensated | decided | cancelled =>
      exact hv.of_same rfl (List.Sublist.refl _)
  | forget => exact hv.of_same rfl (List.nil_sublist _)
  | @forwardStarted _ _ _ attempt _ _ _ hrun _ _ hnext =>
      -- forward work means that no compensation has been started
      have hnone {a : StepAttempt} (ha : a ∈ (v.attempts.put attempt).rows) :
          a.phase ≠ .compensation := by
        intro hphase
        rcases KeyedTable.mem_put.mp ha with rfl | ⟨ha, _⟩
        · simp [hnext.phase] at hphase
        · have hstate := (hsound.undoing ⟨a, ha, hphase⟩).state
          rcases hrun with ⟨hrun, _⟩ | ⟨hrun, _⟩ <;> simp [hrun] at hstate
      exact ⟨fun a ha hphase => absurd hphase (hnone ha),
        fun _ _ a ha _ hphase => absurd hphase (hnone ha)⟩
  | @compensationStarted step _ attempt futures _ _ _ hdrained hpending hnext hfutures =>
      have hopen := ((hsound.keyed.mem_pending hpending).mp List.mem_cons_self).2
      have hmem : attempt ∈ (v.attempts.put attempt).rows := KeyedTable.mem_put.mpr (.inl rfl)
      refine ⟨fun a ha hphase hcompleted => ?_, fun f hf a ha hfor hphase => ?_⟩
      · rcases KeyedTable.mem_put.mp ha with rfl | ⟨hold, _⟩
        · simp [StepAttempt.Completed, hnext.status] at hcompleted
        · have hlast := hv.completed a hold hphase hcompleted
          refine ⟨ha, fun b hb hstepId hkind => ?_⟩
          rcases KeyedTable.mem_put.mp hb with rfl | ⟨hb, _⟩
          · exact absurd hcompleted (hopen a hold (hstepId.symm.trans hnext.stepId) hphase)
          · exact hlast.greatest b hb hstepId hkind
      · have hnew : f.2.IsFor attempt := (hfutures.mem hf).resolve_left (by simp [hdrained])
        have hsame : a = attempt := by
          rcases KeyedTable.mem_put.mp ha with rfl | ⟨hold, _⟩
          · rfl
          · exact absurd (StepAttempt.key_eq_iff.mpr ⟨(hsound.keyed.attempt a hold).trans
              hnext.runId.symm, hfor.stepId.symm.trans hnew.stepId,
              hfor.attemptNo.symm.trans hnew.attemptNo, hfor.phase.symm.trans hnew.phase⟩)
              (hnext.key_ne hold)
        subst hsame
        refine ⟨hmem, fun b hb hstepId hkind => ?_⟩
        rcases KeyedTable.mem_put.mp hb with rfl | ⟨hb, _⟩
        · exact le_refl _
        · rw [hnext.attemptNo]
          exact (lt_nextAttemptNo (RunRecord.mem_stepAttempts.mpr
            ⟨hb, hstepId.trans hnext.stepId⟩) (hkind.trans hnext.phase)).le
  | forwardFinished _ hsource _ _ _ hattempt hnot =>
      exact hv.ended rfl (RunRecord.findAttempt_eq_some hattempt).1 rfl
        (fun hphase => absurd hphase hnot) hsource.sublist
  | compensationFinished _ hsource hattempt hphase =>
      exact hv.ended rfl (RunRecord.findAttempt_eq_some hattempt).1 rfl
        (fun _ => hv.finds hsound hlogged hsource hattempt hphase) hsource.sublist
  | recoveredApplied _ _ hunresolved | recoveredNotApplied _ _ hunresolved
  | recoveredManual _ _ hunresolved =>
      have hlast := hlogged.last_unresolved hunresolved
      exact hv.ended rfl hlast.mem rfl (fun _ => hlast) (List.Sublist.refl _)

end

theorem Reachable.lastCompensates {cfg : Deployment} {permitted : World → Action → Prop} {w : World}
    (h : Reachable cfg permitted w) {runId : String} {v : RunView}
    (hv : w.shared.view runId = some v) : v.LastCompensates := by
  refine h.view_induction (P := RunView.LastCompensates) ?_ ?_ hv
  · intro v hinitial hdrained _
    exact ⟨by simp [hinitial.attempts], by simp [hdrained]⟩
  · exact fun w action runId v v' hreachable _ hv hsound _ hmove hlast =>
      hmove.lastCompensates hlast hsound (hreachable.logged hv)

/-! ## Starts -/

/-- What a compensation is started for: an effect of a step that has succeeded, which no
completed compensation undoes yet, in a run that compensates while nothing runs. -/
structure RunView.Compensable (v : RunView) (stepId : String) : Prop where
  state : v.run.state = .compensating
  succeeded : v.stateOf stepId = some .succeeded
  effect : ∃ a ∈ v.attempts.rows, a.stepId = stepId ∧ a.ForwardEffect
  idle : ∀ a ∈ v.attempts.rows, a.status ≠ .running
  notUndone : ∀ a ∈ v.attempts.rows, a.stepId = stepId → a.phase = .compensation → ¬ a.Completed

theorem RunMove.compensable {cfg : Deployment} {v v' : RunView} {attempt : StepAttempt}
    (h : RunMove cfg v (.start attempt) v') (hv : v.Sound)
    (hphase : attempt.phase = .compensation) : v.Compensable attempt.stepId := by
  cases h with
  | forwardStarted _ _ _ _ hnext =>
      rw [hnext.phase] at hphase
      exact absurd hphase (by decide)
  | compensationStarted hstate hquiet _ hpending hnext =>
      obtain ⟨⟨_, _, hsucceeded, heffect⟩, hopen⟩ :=
        (hv.keyed.mem_pending hpending).mp List.mem_cons_self
      rw [hnext.stepId]
      exact ⟨hstate, hsucceeded, heffect, fun a ha => (hquiet.attempts a ha).1, hopen⟩

/-- A forward attempt is started while its run has not left `RUNNING`. -/
theorem RunMove.running_of_forward {cfg : Deployment} {v v' : RunView} {attempt : StepAttempt}
    (h : RunMove cfg v (.start attempt) v') (hphase : attempt.phase = .forward) :
    v.run.state ∈ [.pending, .running] := by
  cases h with
  | forwardStarted _ hrun => rcases hrun with ⟨hstate, _⟩ | ⟨hstate, _⟩ <;> simp [hstate]
  | compensationStarted _ _ _ _ hnext =>
      rw [hnext.phase] at hphase
      exact absurd hphase (by decide)

/-- No forward work is left to be started: where a run is from `COMPENSATING` on. -/
def RunView.PastForward (v : RunView) : Prop :=
  v.run.state ∈ [.compensating, .compensated, .manualIntervention]

theorem RunMove.pastForward {cfg : Deployment} {cause : Cause} {v v' : RunView}
    (h : RunMove cfg v cause v') (hv : v.PastForward) : v'.PastForward := by
  rcases h.run_state with hsame | htransition
  · rwa [RunView.PastForward, hsame]
  · revert hv htransition
    unfold RunView.PastForward
    cases v.run.state <;> simp [runTransitions]
    intro h
    simp [h]

/-- A run that is past its forward work stays so, whatever follows. -/
theorem Reachable.pastForward {cfg : Deployment} {permitted : World → Action → Prop}
    {w : World} (h : Reachable cfg permitted w) {runId : String} (later : List Action) :
    ∀ {v : RunView}, w.shared.view runId = some v → v.PastForward →
      ∃ v', (later.foldl (World.step cfg) w).shared.view runId = some v' ∧ v'.PastForward := by
  have hw : Reachable cfg (fun _ _ => True) w := h.mono fun _ _ _ => trivial
  clear h
  induction later generalizing w with
  | nil =>
      intro v hv hpast
      exact ⟨v, hv, hpast⟩
  | cons action rest ih =>
      intro v hv hpast
      obtain ⟨v', hv', hstep⟩ := (hw.good.step action).2.views runId v hv
      refine ih (hw.step action trivial) hv' ?_
      rcases hstep with rfl | hmove
      · exact hpast
      · exact hmove.pastForward hpast

/-- Whatever the order of dispatch, outcomes, decisions, cancellations, crashes and
recovery: a compensation is started only for an effect that is not undone, in a run that
compensates while nothing runs; each step has at most one completed compensation; and a
run that compensates never starts a forward attempt again. -/
theorem compensations_undo_effects_once (cfg : Deployment) (instant : Timestamp)
    (actions : List Action) :
    let w := World.after cfg instant actions
    (∀ action attempt, w.Starts (w.step cfg action) attempt → attempt.phase = .compensation →
      ∃ v, w.shared.view attempt.runId = some v ∧ v.Compensable attempt.stepId) ∧
    ∀ runId v, w.shared.view runId = some v →
      (∀ a ∈ v.attempts.rows, ∀ b ∈ v.attempts.rows, a.phase = .compensation →
        b.phase = .compensation → a.stepId = b.stepId → a.Completed → b.Completed → a = b) ∧
      (v.run.state = .compensating → ∀ (further : List Action) (action : Action)
        (attempt : StepAttempt),
        let later := further.foldl (World.step cfg) w
        later.Starts (later.step cfg action) attempt →
          ¬ (attempt.runId = runId ∧ attempt.phase = .forward)) := by
  intro w
  have h : Reachable cfg (fun _ _ => True) w := reachable_after instant actions
  refine ⟨fun action attempt hstarts hphase => ?_, fun runId v hv => ⟨?_, ?_⟩⟩
  · obtain ⟨v, _, hv, _, _, hmove, _, hsound⟩ := h.move_of_starts hstarts
    exact ⟨v, hv, hmove.compensable hsound hphase⟩
  · intro a ha b hb haPhase hbPhase hstepId haCompleted hbCompleted
    have hlast := h.lastCompensates hv
    exact (h.sound hv).keyed.last_unique (hlast.completed a ha haPhase haCompleted)
      (hlast.completed b hb hbPhase hbCompleted) hstepId (haPhase.trans hbPhase.symm)
  · intro hstate further action attempt later hstarts hforward
    obtain ⟨rfl, hphase⟩ := hforward
    have hlater : Reachable cfg (fun _ _ => True) later := h.foldl further
    obtain ⟨v', hv', hpast⟩ := h.pastForward further hv (by simp [RunView.PastForward, hstate])
    obtain ⟨u, _, hu, _, _, hmove, _, _⟩ := hlater.move_of_starts hstarts
    obtain rfl : v' = u := Option.some.inj (hv'.symm.trans hu)
    have hrunning := hmove.running_of_forward hphase
    revert hpast hrunning
    unfold RunView.PastForward
    cases v'.run.state <;> simp

end ChangePilot
