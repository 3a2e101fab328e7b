import ChangePilot.Guarantees.Failure

/-!
# The first failure of a run

A run remembers the failure that has moved it out of `RUNNING`, and nothing that happens
later replaces it.  A compensation that fails, or that recovery cannot prove, adds its own
error and ends the run in `MANUAL_INTERVENTION`.

There is one lemma about moves for each thing that is said: when the error is set
(`RunMove.originalError_cases`), who leads from waiting to compensating
(`RunMove.rejected_of_compensating`), and what a failed compensation does
(`RunMove.failedCompensation_cases`).  The invariant `KeepsErrors` and what holds from one
state to a later one both follow from these.
-/

namespace ChangePilot

/-- A request for an approval has been turned down. -/
def RunRecord.Rejected (v : RunRecord) : Prop :=
  ∃ request ∈ v.approvals.rows, request.status = .rejected

/-- The step is the failure of a forward step, which the run remembers. -/
def RunView.FailsForward (v : RunView) (cause : Cause) (v' : RunView) : Prop :=
  ∃ outcome, cause = .outcome outcome ∧ outcome.runId = v.run.runId ∧
    v'.stateOf outcome.stepId = some .failed ∧ v'.run.originalError = some outcome.errorInfo

/-- The attempt of a compensation has failed, or recovery has given up on it. -/
def StepAttempt.FailedCompensation (attempt : StepAttempt) : Prop :=
  attempt.phase = .compensation ∧
    (attempt.status = .failed ∨ attempt.status = .manualIntervention)

/-! ## What a move does to the errors -/

section

variable {cfg : Deployment} {cause : Cause} {v v' : RunView}

/-- A run in a terminal state is not touched any more. -/
theorem RunMove.run_eq_of_terminal (h : RunMove cfg v cause v')
    (hterminal : runTransitions v.run.state = []) : v'.run = v.run := by
  -- no transition leads out of a terminal state
  have stuck {target : RunState} (htarget : target ∈ runTransitions v.run.state) : False := by
    rw [hterminal] at htarget
    cases htarget
  cases h with
  | barrier _ _ _ _ hrun =>
      rcases hrun with ⟨_, rfl⟩ | ⟨htarget, _⟩
      · rfl
      · exact (stuck htarget).elim
  | forwardStarted _ hrun =>
      rcases hrun with ⟨hpending, _⟩ | ⟨_, rfl⟩
      · rw [hpending] at hterminal
        cases hterminal
      · rfl
  -- only a running run is settled by a forward outcome
  | forwardFinished _ _ _ _ _ _ _ _ _ hsettles =>
      cases hsettles with
      | unaffected => rfl
      | completed hrunning | failed hrunning | compensating hrunning =>
          rw [show v.run.state = .running from hrunning] at hterminal
          cases hterminal
  | compensationFinished _ _ _ _ hsettles =>
      cases hsettles with
      | remaining => rfl
      | completed _ _ htransition | failed _ htransition => exact (stuck htransition).elim
  | compensated hstate =>
      rw [hstate] at hterminal
      cases hterminal
  | decided _ _ hstate =>
      rw [hstate] at hterminal
      cases hterminal
  | cancelled htransition => exact (stuck htransition).elim
  | recoveredApplied _ _ _ _ _ _ _ hsettles =>
      cases hsettles with
      | unaffected => rfl
      | compensated hstate | compensatedAtOnce hstate | completed hstate =>
          rw [show v.run.state = _ from hstate] at hterminal
          cases hterminal
  | recoveredManual _ _ _ _ htransition => exact (stuck htransition).elim
  -- the other moves do not touch the run
  | _ => rfl

/-- The first error stays as it is, unless a forward step fails in a running run. -/
theorem RunMove.originalError_cases (h : RunMove cfg v cause v') :
    (v'.run.originalError = v.run.originalError ∧
      ¬ (v.run.state = .running ∧ v'.run.state ∈ [.failed, .compensating])) ∨
    (v.run.state = .running ∧ v'.run.state ∈ [.failed, .compensating] ∧
      v.FailsForward cause v') := by
  -- a move that leaves the run as it is
  have unmoved (hrun : v'.run = v.run) : v'.run.originalError = v.run.originalError ∧
      ¬ (v.run.state = .running ∧ v'.run.state ∈ [.failed, .compensating]) := by
    rw [hrun]
    refine ⟨rfl, fun ⟨hrunning, hmoved⟩ => ?_⟩
    rw [hrunning] at hmoved
    exact absurd hmoved (by decide)
  -- a move to a state that takes no error along
  have moved (target : RunState) (herror : v'.run.originalError = v.run.originalError)
      (hstate : v'.run.state = target) (htarget : target ∉ [.failed, .compensating]) :
      v'.run.originalError = v.run.originalError ∧
        ¬ (v.run.state = .running ∧ v'.run.state ∈ [.failed, .compensating]) :=
    ⟨herror, fun ⟨_, hmoved⟩ => htarget (hstate ▸ hmoved)⟩
  cases h with
  | barrier _ _ _ _ hrun =>
      rcases hrun with ⟨_, rfl⟩ | ⟨_, rfl⟩
      · exact .inl (unmoved rfl)
      · exact .inl (moved .waitingApproval rfl rfl (by decide))
  | forwardStarted _ hrun =>
      rcases hrun with ⟨_, rfl⟩ | ⟨_, rfl⟩
      · exact .inl (moved .running rfl rfl (by decide))
      · exact .inl (unmoved rfl)
  | forwardFinished hrunId _ _ _ _ _ _ _ _ hsettles =>
      cases hsettles with
      | unaffected => exact .inl (unmoved rfl)
      | completed => exact .inl (moved .succeeded rfl rfl (by decide))
      -- the one move that records the error: the last attempt failed
      | failed hrunning hfailed | compensating hrunning hfailed =>
          refine .inr ⟨hrunning, by simp, _, rfl, hrunId, ?_, rfl⟩
          subst hfailed
          exact RunRecord.stateOf_eq_some_iff.mpr ⟨_, Function.update_self .., rfl⟩
  | compensationFinished _ _ _ _ hsettles =>
      cases hsettles with
      | remaining => exact .inl (unmoved rfl)
      | completed => exact .inl (moved .compensated rfl rfl (by decide))
      | failed => exact .inl (moved .manualIntervention rfl rfl (by decide))
  | compensated => exact .inl (moved .compensated rfl rfl (by decide))
  -- a decision is taken while the run waits
  | decided _ _ hstate =>
      refine .inl ⟨rfl, fun ⟨hrunning, _⟩ => ?_⟩
      rw [hrunning] at hstate
      cases hstate
  | cancelled => exact .inl (moved .cancelled rfl rfl (by decide))
  | recoveredApplied _ _ _ _ _ _ _ hsettles =>
      cases hsettles with
      | unaffected => exact .inl (unmoved rfl)
      | compensated | compensatedAtOnce => exact .inl (moved .compensated rfl rfl (by decide))
      | completed => exact .inl (moved .succeeded rfl rfl (by decide))
  | recoveredManual _ _ _ _ _ hrun =>
      rcases hrun with rfl | rfl
      · exact .inl (moved .manualIntervention rfl rfl (by decide))
      · exact .inl (moved .manualIntervention rfl rfl (by decide))
  | _ => exact .inl (unmoved rfl)

/-- Requests are decided before a compensation only. -/
theorem RunMove.rejected_kept (h : RunMove cfg v cause v')
    (hstate : v.run.state ∈ [.compensating, .compensated, .manualIntervention])
    (hrejected : v.Rejected) : v'.Rejected := by
  cases h with
  | barrier _ _ _ _ hrun =>
      rcases hrun with ⟨hwaiting, _⟩ | ⟨htarget, _⟩
      · rw [hwaiting] at hstate
        exact absurd hstate (by decide)
      · rcases List.mem_cons.mp hstate with hv | hstate
        · rw [hv] at htarget
          exact absurd htarget (by decide)
        · rcases List.mem_pair.mp hstate with hv | hv
          · rw [hv] at htarget
            cases htarget
          · rw [hv] at htarget
            cases htarget
  | decided _ _ hwaiting =>
      rw [hwaiting] at hstate
      exact absurd hstate (by decide)
  | _ => exact hrejected

/-- A run that waits for an approval is compensated when the approval is refused. -/
theorem RunMove.rejected_of_compensating (h : RunMove cfg v cause v')
    (hwaiting : v.run.state = .waitingApproval) (hafter : v'.run.state = .compensating) :
    v'.Rejected := by
  have stays (hrun : v'.run.state = v.run.state) : v'.Rejected := by
    rw [hafter, hwaiting] at hrun
    cases hrun
  cases h with
  | barrier _ _ _ _ hrun =>
      rcases hrun with ⟨_, rfl⟩ | ⟨_, rfl⟩
      · exact stays rfl
      · cases hafter
  | forwardStarted _ hrun =>
      rcases hrun with ⟨_, rfl⟩ | ⟨_, rfl⟩
      · cases hafter
      · exact stays rfl
  | forwardFinished _ _ _ _ _ _ _ _ _ hsettles =>
      cases hsettles with
      | unaffected => exact stays rfl
      | completed hrunning | failed hrunning | compensating hrunning =>
          rw [show v.run.state = .running from hrunning] at hwaiting
          cases hwaiting
  | compensationFinished _ _ _ _ hsettles =>
      cases hsettles with
      | remaining => exact stays rfl
      | completed | failed => cases hafter
  | compensated => cases hafter
  | @decided target request decision actor reason decidedAt _ _ _ _ _ _ hdecision =>
      obtain rfl : target = .compensating := hafter
      -- only a rejection leads to compensating
      have hrejected : decision = .rejected := by
        cases decision with
        | approved => exact absurd (hdecision.mpr rfl) (by decide)
        | rejected => rfl
      refine ⟨request.decided decision actor reason decidedAt, KeyedTable.mem_put.mpr (.inl rfl), ?_⟩
      rw [hrejected]
      rfl
  | cancelled => cases hafter
  | recoveredApplied _ _ _ _ _ _ _ hsettles =>
      cases hsettles with
      | unaffected => exact stays rfl
      | compensated | compensatedAtOnce | completed => cases hafter
  | recoveredManual _ _ _ _ _ hrun =>
      rcases hrun with rfl | rfl
      · cases hafter
      · cases hafter
  | _ => exact stays rfl

/-- Compensations are started while the run is compensating. -/
theorem RunMove.compensation_origin (h : RunMove cfg v cause v') (hv : v.Sound) {a : StepAttempt}
    (ha : a ∈ v'.attempts.rows) (hphase : a.phase = .compensation) :
    (∃ b ∈ v.attempts.rows, b.phase = .compensation) ∨ v.run.state = .compensating := by
  rcases h.attempt_origin hv.keyed ha with ⟨b, hb, hkey⟩ | ⟨_, _, ⟨hforward, _⟩ | ⟨_, hstate, _⟩⟩
  · obtain ⟨_, _, _, hphases⟩ := StepAttempt.key_eq_iff.mp hkey
    exact .inl ⟨b, hb, hphases.trans hphase⟩
  · exact absurd (hforward.symm.trans hphase) (by decide)
  · exact .inr hstate

/-- A compensation that fails, or is given up, ends the run with an error of its own. -/
theorem RunMove.failedCompensation_cases (h : RunMove cfg v cause v') {a : StepAttempt}
    (ha : a ∈ v'.attempts.rows) (hfailed : a.FailedCompensation) :
    a ∈ v.attempts.rows ∨
      (v'.run.state = .manualIntervention ∧ v'.run.compensationError.isSome = true) := by
  -- an attempt is new in the move or was there before
  have put {new : StepAttempt} (hattempts : v'.attempts = v.attempts.put new)
      (hnew : new.FailedCompensation →
        v'.run.state = .manualIntervention ∧ v'.run.compensationError.isSome = true) :
      a ∈ v.attempts.rows ∨
        (v'.run.state = .manualIntervention ∧ v'.run.compensationError.isSome = true) := by
    rw [hattempts] at ha
    rcases KeyedTable.mem_put.mp ha with rfl | ⟨ha, _⟩
    · exact .inr (hnew hfailed)
    · exact .inl ha
  cases h with
  | forwardStarted _ _ _ _ hnext =>
      exact put rfl fun h => absurd (hnext.phase.symm.trans h.1) (by decide)
  | compensationStarted _ _ _ _ hnext =>
      exact put rfl fun h => by rcases h.2 with h | h <;> simp [hnext.status] at h
  | forwardFinished _ _ _ _ _ _ hphase => exact put rfl fun h => absurd h.1 hphase
  | @compensationFinished _ _ outcome _ _ _ _ _ _ _ _ _ hsettles =>
      refine put rfl fun h => ?_
      have hstatus : outcome.status ≠ .success := by
        intro hsuccess
        rcases h.2 with h | h
        · exact absurd (hsuccess.symm.trans h) (by decide)
        · exact absurd (hsuccess.symm.trans h) (by decide)
      cases hsettles with
      | remaining hsuccess | completed hsuccess => exact absurd hsuccess hstatus
      -- a failed compensation hands its run over at once
      | failed => exact ⟨rfl, rfl⟩
  | recoveredApplied =>
      refine put rfl fun h => ?_
      rcases h.2 with h | h
      · cases h
      · cases h
  | recoveredNotApplied =>
      refine put rfl fun h => ?_
      rcases h.2 with h | h
      · cases h
      · cases h
  -- so does one whose outcome cannot be told
  | recoveredManual _ _ _ _ _ hrun _ _ hunproven =>
      refine put rfl fun h => ⟨?_, ?_⟩
      · rcases hrun with rfl | rfl
        · rfl
        · rfl
      · show (WorkflowRun.compensationError _).isSome = true
        rw [hunproven h.1]
        rfl
  | _ => exact .inl ha

/-! ## What holds of the errors of a run -/

/-- The states of a run that has been moved out of `RUNNING` by a failure. -/
def afterFailure : List RunState := [.failed, .compensating, .compensated, .manualIntervention]

structure RunView.KeepsErrors (v : RunView) : Prop where
  first : v.run.originalError.isSome = true → v.run.state ∈ afterFailure
  origin : (v.run.state = .compensating ∨ ∃ a ∈ v.attempts.rows, a.phase = .compensation) →
    v.run.originalError.isSome = true ∨ v.Rejected
  failed : ∀ a ∈ v.attempts.rows, a.FailedCompensation →
    v.run.state = .manualIntervention ∧ v.run.compensationError.isSome = true

theorem RunView.keepsErrors_of_initial (h : v.Initial) : v.KeepsErrors where
  first herror := by
    rw [h.originalError] at herror
    cases herror
  origin hstate := by
    rcases hstate with hstate | ⟨a, ha, _⟩
    · rw [h.run] at hstate
      cases hstate
    · rw [h.attempts] at ha
      cases ha
  failed a ha := by
    rw [h.attempts] at ha
    cases ha

/-- A failure does not take the run back to `RUNNING`, and nothing else sets the error. -/
theorem RunMove.first_kept (h : RunMove cfg v cause v') (hk : v.KeepsErrors)
    (herror : v'.run.originalError.isSome = true) : v'.run.state ∈ afterFailure := by
  rcases h.originalError_cases with ⟨hsame, _⟩ | ⟨_, hmoved, _⟩
  · rw [hsame] at herror
    have hstate := hk.first herror
    rcases h.run_state with hstays | hmoves
    · rw [hstays]
      exact hstate
    · -- of these states only `COMPENSATING` is left again
      revert hstate hmoves
      cases v.run.state <;> simp [afterFailure, runTransitions]
      rintro (h | h) <;> simp [h]
  · rcases List.mem_pair.mp hmoved with h | h <;> simp [afterFailure, h]

/-- The error that is there stays. -/
theorem RunMove.originalError_kept (h : RunMove cfg v cause v') (hk : v.KeepsErrors)
    {error : ErrorInfo} (herror : v.run.originalError = some error) :
    v'.run.originalError = some error := by
  rcases h.originalError_cases with ⟨hsame, _⟩ | ⟨hrunning, _⟩
  · rw [hsame, herror]
  · have hstate := hk.first (by rw [herror]; rfl)
    rw [hrunning] at hstate
    exact absurd hstate (by decide)

/-- While a compensation is under way, its cause is kept. -/
theorem RunMove.cause_kept (h : RunMove cfg v cause v') (hk : v.KeepsErrors)
    (hstate : v.run.state ∈ [.compensating, .compensated, .manualIntervention])
    (hcause : v.run.originalError.isSome = true ∨ v.Rejected) :
    v'.run.originalError.isSome = true ∨ v'.Rejected := by
  rcases hcause with herror | hrejected
  · obtain ⟨error, herror⟩ := Option.isSome_iff_exists.mp herror
    rw [h.originalError_kept hk herror]
    exact .inl rfl
  · exact .inr (h.rejected_kept hstate hrejected)

/-- A compensation is started by a failure or by a refusal. -/
theorem RunMove.cause_of_compensating (h : RunMove cfg v cause v') (hk : v.KeepsErrors)
    (hafter : v'.run.state = .compensating) :
    v'.run.originalError.isSome = true ∨ v'.Rejected := by
  rcases h.originalError_cases with ⟨_, hnot⟩ | ⟨_, _, _, _, _, _, herror⟩
  · by_cases hbefore : v.run.state = .compensating
    · exact h.cause_kept hk (by simp [hbefore]) (hk.origin (.inl hbefore))
    · by_cases hwaiting : v.run.state = .waitingApproval
      · exact .inr (h.rejected_of_compensating hwaiting hafter)
      · -- no other state but `RUNNING` is left for `COMPENSATING`
        rcases h.run_state with hstays | hmoves
        · exact absurd (hstays.symm.trans hafter) hbefore
        · rw [hafter] at hmoves hnot
          revert hmoves hwaiting hnot
          cases v.run.state <;> simp [runTransitions]
  · rw [herror]
    exact .inl rfl

theorem RunMove.keepsErrors (h : RunMove cfg v cause v') (hv : v.Sound) (hk : v.KeepsErrors) :
    v'.KeepsErrors where
  first := h.first_kept hk
  origin hstate := by
    rcases hstate with hafter | ⟨a, ha, hphase⟩
    · exact h.cause_of_compensating hk hafter
    · rcases h.compensation_origin hv ha hphase with hexists | hbefore
      · exact h.cause_kept hk (hv.undoing hexists).state (hk.origin (.inr hexists))
      · exact h.cause_kept hk (by simp [hbefore]) (hk.origin (.inl hbefore))
  failed a ha hfailed := by
    rcases h.failedCompensation_cases ha hfailed with hold | hnew
    · obtain ⟨hstate, herror⟩ := hk.failed a hold hfailed
      rw [h.run_eq_of_terminal (by rw [hstate]; rfl)]
      exact ⟨hstate, herror⟩
    · exact hnew

end

/-! ## Runs of the system -/

theorem Reachable.keepsErrors {cfg : Deployment} {w : World}
    (h : Reachable cfg (fun _ _ => True) w) {runId : String} {v : RunView}
    (hv : w.shared.view runId = some v) : v.KeepsErrors :=
  h.view_induction (P := RunView.KeepsErrors) (fun _ hinitial _ _ =>
    RunView.keepsErrors_of_initial hinitial)
    (fun _ _ _ _ _ _ _ _ hsound _ hmove hkeeps => hmove.keepsErrors hsound hkeeps) hv

/-- A step that keeps the first error or fails a running run sets the error exactly when it
fails the run. -/
theorem RunView.error_set_iff {v v' : RunView} {cause : Cause} (hk : v.KeepsErrors)
    (h : v' = v ∨ (v'.run.originalError = v.run.originalError ∧
        ¬ (v.run.state = .running ∧ v'.run.state ∈ [.failed, .compensating])) ∨
      (v.run.state = .running ∧ v'.run.state ∈ [.failed, .compensating] ∧
        v.FailsForward cause v')) :
    ((v.run.originalError = none ∧ v'.run.originalError.isSome = true) ↔
      (v.run.state = .running ∧ v'.run.state ∈ [.failed, .compensating])) ∧
    (v.run.originalError = none → v'.run.originalError.isSome = true →
      v.FailsForward cause v') := by
  have unset (hsame : v'.run.originalError = v.run.originalError)
      (hnone : v.run.originalError = none) (hsome : v'.run.originalError.isSome = true) : False := by
    rw [hsame, hnone] at hsome
    cases hsome
  have same (hsame : v'.run.originalError = v.run.originalError)
      (hnot : ¬ (v.run.state = .running ∧ v'.run.state ∈ [.failed, .compensating])) :
      ((v.run.originalError = none ∧ v'.run.originalError.isSome = true) ↔
        (v.run.state = .running ∧ v'.run.state ∈ [.failed, .compensating])) ∧
      (v.run.originalError = none → v'.run.originalError.isSome = true →
        v.FailsForward cause v') :=
    ⟨iff_of_false (fun h => unset hsame h.1 h.2) hnot,
      fun hnone hsome => (unset hsame hnone hsome).elim⟩
  rcases h with rfl | ⟨hsame, hnot⟩ | ⟨hrunning, hmoved, hfails⟩
  · refine same rfl fun ⟨hrunning, hmoved⟩ => ?_
    rw [hrunning] at hmoved
    exact absurd hmoved (by decide)
  · exact same hsame hnot
  -- an error that was set would have taken the run out of running
  · have hnone : v.run.originalError = none := by
      by_contra hset
      have hstate := hk.first (Option.isSome_iff_ne_none.mpr hset)
      rw [hrunning] at hstate
      exact absurd hstate (by decide)
    have hsome : v'.run.originalError.isSome = true := by
      obtain ⟨_, _, _, _, herror⟩ := hfails
      rw [herror]
      rfl
    exact ⟨iff_of_true ⟨hnone, hsome⟩ ⟨hrunning, hmoved⟩, fun _ _ => hfails⟩

/-- The first error is still there after any further steps of the system. -/
theorem Reachable.originalError_kept {cfg : Deployment} {runId : String} {error : ErrorInfo}
    (further : List Action) : ∀ {w : World}, Reachable cfg (fun _ _ => True) w →
      ∀ {v : RunView}, w.shared.view runId = some v → v.run.originalError = some error →
        ∃ v', (further.foldl (World.step cfg) w).shared.view runId = some v' ∧
          v'.run.originalError = some error := by
  induction further with
  | nil => exact fun _ v hv herror => ⟨v, hv, herror⟩
  | cons action rest ih =>
      intro w h v hv herror
      obtain ⟨v', hv', hstep⟩ := (h.good.step action).2.views runId v hv
      refine ih (.step action h trivial) hv' ?_
      rcases hstep with rfl | hmove
      · exact herror
      · exact hmove.originalError_kept (h.keepsErrors hv) herror

/-- Whatever happens: the first error of a run never changes; a step sets it if and only if
it moves the run out of `RUNNING`, to `FAILED` or `COMPENSATING`, and then a forward step
has failed; and a run with a compensation that has failed, or was given up, is in
`MANUAL_INTERVENTION` with an error for that, and with the first error unless the
compensation was started because an approval was refused. -/
theorem first_failure_is_kept (cfg : Deployment) (instant : Timestamp) (actions : List Action) :
    let w := World.after cfg instant actions
    ∀ runId v, w.shared.view runId = some v →
      (∀ error, v.run.originalError = some error → ∀ further : List Action,
        ∃ v', (further.foldl (World.step cfg) w).shared.view runId = some v' ∧
          v'.run.originalError = some error) ∧
      (∀ action v', (w.step cfg action).shared.view runId = some v' →
        ((v.run.originalError = none ∧ v'.run.originalError.isSome = true) ↔
          (v.run.state = .running ∧ v'.run.state ∈ [.failed, .compensating])) ∧
        (v.run.originalError = none → v'.run.originalError.isSome = true →
          v.FailsForward (w.cause action) v')) ∧
      ∀ attempt ∈ v.attempts.rows, attempt.FailedCompensation →
        v.run.state = .manualIntervention ∧ v.run.compensationError.isSome = true ∧
          (v.run.originalError.isSome = true ∨ v.Rejected) := by
  intro w runId v hv
  have hreachable : Reachable cfg (fun _ _ => True) w := reachable_after instant actions
  have hkeeps := hreachable.keepsErrors hv
  refine ⟨fun error herror further => Reachable.originalError_kept further hreachable hv herror,
    fun action v' hv' => ?_, fun attempt hattempt hfailed => ?_⟩
  · obtain ⟨v'', hv'', hstep⟩ := (hreachable.good.step action).2.views runId v hv
    obtain rfl := Option.some.inj (hv''.symm.trans hv')
    exact RunView.error_set_iff hkeeps (hstep.imp_right RunMove.originalError_cases)
  · obtain ⟨hstate, herror⟩ := hkeeps.failed attempt hattempt hfailed
    exact ⟨hstate, herror, hkeeps.origin (.inr ⟨attempt, hattempt, hfailed.1⟩)⟩

open Sample in
theorem first_failure_is_kept_failing : ∃ v error v',
    (World.after deployment 0 failing).shared.view "r" = some v ∧
      v.run.originalError = some error ∧
      (List.foldl (World.step deployment) (World.after deployment 0 failing)
        Sample.runOnce).shared.view "r" = some v' ∧ v'.run.originalError = some error := by
  obtain ⟨v, hv, hsome⟩ := exists_view (w := World.after deployment 0 failing)
    (P := fun v => v.run.originalError.isSome = true) (by decide +kernel)
  obtain ⟨error, herror⟩ := Option.isSome_iff_exists.mp hsome
  obtain ⟨v', hv', hkept⟩ :=
    (first_failure_is_kept deployment 0 failing "r" v hv).1 error herror Sample.runOnce
  exact ⟨v, error, v', hv, herror, hv', hkept⟩

end ChangePilot
