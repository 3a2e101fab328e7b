import ChangePilot.System.Turns
import ChangePilot.Guarantees.Failure

/-!
# Failed submissions

A turn starts its prepared attempts one after the other and records the failure of each
submission that fails.  When such a failure uses up the attempts of its step, the run
stops going forward.  The dispatch ends there if the run has failed, but not if there are
effects to compensate; starting the next attempt then raises.

The proof goes through the dispatch as it goes on:

* `RunView.Starts.failure_ends`: what becomes of a submission that fails, by the time that
  its next attempt would be due at;
* `dispatchAfterFailure_ends`: how the dispatch goes on from there, by the state of the run;
* `RunView.FailureRecorded.concludes`: the case in which no attempt of the step is left;
* `RunView.Starts.concludes`: the first attempt, given what is known of the others;
* `dispatchEach_ends`: all attempts, by induction on the list.

What the condition says of the attempts (`Submissions.Tolerated`) unfolds along that list
in the same way.
-/

namespace ChangePilot

/-! ## What becomes of a prepared attempt -/

/-- What has become of a prepared attempt of the run `v`. -/
inductive RunView.Fate (v : RunView) (prepared : PreparedAttempt) (v' : RunView) : Prop
  | notStarted (hsteps : v'.steps prepared.step.id = v.steps prepared.step.id)
      (hattempts : v'.stepAttempts prepared.step.id = v.stepAttempts prepared.step.id)
  | inFlight {future : ℕ} (hstate : v'.stateOf prepared.step.id = some .running)
      (hattempt : prepared.attempt ∈ v'.stepAttempts prepared.step.id)
      (howned : (future, prepared.context) ∈ v'.inFlight)
  | submissionFailed {completedAt : Timestamp} {nextAttemptAt : Option Timestamp} {result : Value}
      (hstate : v'.stateOf prepared.step.id = some
        (if prepared.attempt.attemptNo < prepared.step.retry.maxAttempts then .retryWait
          else .failed))
      (hattempt : prepared.attempt.completedWith (failedOutcome prepared.context .retryable
        "tool submission failed") completedAt nextAttemptAt result ∈
          v'.stepAttempts prepared.step.id)

/-- The prepared attempts have met their fates, and nothing else of the run `v` has
changed, but for the state that the run has moved on to. -/
structure RunView.Dispatched (v : RunView) (attempts : List PreparedAttempt) (v' : RunView) :
    Prop where
  definition : v'.definition = v.definition
  fates : ∀ prepared ∈ attempts, v.Fate prepared v'
  others : ∀ id, id ∉ attempts.map (fun prepared => prepared.step.id) →
    v'.steps id = v.steps id ∧ v'.stepAttempts id = v.stepAttempts id
  inFlight : v.inFlight ⊆ v'.inFlight
  state : v'.run.state =
    if ∃ prepared ∈ attempts, v'.stateOf prepared.step.id = some .failed then
      if compensable v.definition v.stepRuns v.attempts.rows = [] then .failed else .compensating
    else if attempts = [] then v.run.state else .running

/-- The submission fails, and the step has no attempt left. -/
def Submissions.GivesUp (submissions : Submissions) (prepared : PreparedAttempt) : Prop :=
  submissions.fails prepared.step.id = true ∧
    prepared.step.retry.maxAttempts ≤ prepared.attempt.attemptNo

/-- Each submission that fails before the first step has been given up, and that one too,
leaves an attempt at an instant that exists, or is the last, or leaves nothing to
compensate. -/
def Submissions.Tolerated (submissions : Submissions) (v : RunRecord)
    (attempts : List PreparedAttempt) : Prop :=
  ∀ front prepared rest, attempts = front ++ prepared :: rest →
    (∀ earlier ∈ front, ¬ submissions.GivesUp earlier) →
      submissions.fails prepared.step.id = true →
        if prepared.attempt.attemptNo < prepared.step.retry.maxAttempts then
          ∃ next, (submissions.recordedAt prepared.step.id).addSeconds
            prepared.step.retry.initialBackoffSeconds = .ok next
        else rest = [] ∨ compensable v.definition v.stepRuns v.attempts.rows = []

/-- The first of the attempts, and the others unless its step is given up. -/
theorem Submissions.tolerated_cons {submissions : Submissions} {v : RunRecord}
    {prepared : PreparedAttempt} {rest : List PreparedAttempt} :
    submissions.Tolerated v (prepared :: rest) ↔
      (submissions.fails prepared.step.id = true →
        if prepared.attempt.attemptNo < prepared.step.retry.maxAttempts then
          ∃ next, (submissions.recordedAt prepared.step.id).addSeconds
            prepared.step.retry.initialBackoffSeconds = .ok next
        else rest = [] ∨ compensable v.definition v.stepRuns v.attempts.rows = []) ∧
      (¬ submissions.GivesUp prepared → submissions.Tolerated v rest) := by
  constructor
  · intro h
    refine ⟨fun hfails => h [] prepared rest rfl (by simp) hfails, ?_⟩
    intro hgoes front other after hsplit hearlier
    exact h (prepared :: front) other after (by rw [hsplit]; rfl)
      (List.forall_mem_cons.mpr ⟨hgoes, hearlier⟩)
  · rintro ⟨hfirst, hrest⟩ front other after hsplit hearlier
    cases front with
    | nil =>
        obtain ⟨rfl, rfl⟩ := List.cons.inj hsplit
        exact hfirst
    | cons first others =>
        obtain ⟨rfl, rfl⟩ := List.cons.inj hsplit
        obtain ⟨hgoes, hothers⟩ := List.forall_mem_cons.mp hearlier
        exact hrest hgoes others other after rfl hothers

/-! ## One attempt -/

/-- The first attempt has met its fate. -/
structure RunView.Passed (v : RunView) (prepared : PreparedAttempt) (v' : RunView) : Prop where
  definition : v'.definition = v.definition
  runId : v'.run.runId = v.run.runId
  fate : v.Fate prepared v'
  others : ∀ id, id ≠ prepared.step.id →
    v'.steps id = v.steps id ∧ v'.stepAttempts id = v.stepAttempts id
  inFlight : v.inFlight ⊆ v'.inFlight
  effects : compensable v'.definition v'.stepRuns v'.attempts.rows =
    compensable v.definition v.stepRuns v.attempts.rows

/-- A forward attempt of a ready step. -/
structure RunView.Upcoming (cfg : Deployment) (v : RunView) (prepared : PreparedAttempt) :
    Prop where
  keyed : v.Keyed
  startable : v.Startable cfg prepared
  phase : prepared.attempt.phase = .forward
  ready : v.stateOf prepared.step.id = some .ready

section

variable {cfg : Deployment} {v v' v'' : RunView} {prepared : PreparedAttempt}

theorem RunView.Upcoming.step_mem (h : v.Upcoming cfg prepared) :
    prepared.step ∈ v.definition.steps := by
  rcases h.startable.phase with ⟨_, hstep, _⟩ | ⟨hother, _⟩
  · exact hstep
  · exact absurd (h.phase.symm.trans hother) (by decide)

/-- A start leaves the effects of the run alone. -/
theorem RunView.Starts.effects {submitFails : Bool} (h : v.Starts prepared submitFails v')
    (hv : v.Upcoming cfg prepared) (hkeyed : v'.Keyed) :
    compensable v'.definition v'.stepRuns v'.attempts.rows =
      compensable v.definition v.stepRuns v.attempts.rows := by
  obtain ⟨row, hrow, hsteps⟩ := h.steps
  refine compensable_congr hv.keyed hkeyed h.definition (fun id => ?_) fun a heffect => ?_
  · rw [RunRecord.stateOf, hsteps]
    by_cases hsame : id = prepared.step.id
    · rw [hsame, Function.update_self, hv.ready]
      simp [hrow]
    · rw [Function.update_of_ne hsame, RunRecord.stateOf]
  · rw [h.attempts]
    refine RunRecord.mem_put_effect ?_ ?_ heffect
    · rintro ⟨_, hcompleted, _⟩
      rw [StepAttempt.Completed, hv.startable.next.status] at hcompleted
      exact absurd hcompleted (by decide)
    · exact fun other hother hkey => absurd hkey (hv.startable.next.key_ne hother)

/-- A start leaves the other steps alone. -/
theorem RunView.Starts.others {submitFails : Bool} (h : v.Starts prepared submitFails v')
    (hv : v.Upcoming cfg prepared) {id : String} (hid : id ≠ prepared.step.id) :
    v'.steps id = v.steps id ∧ v'.stepAttempts id = v.stepAttempts id := by
  obtain ⟨row, _, hsteps⟩ := h.steps
  refine ⟨by rw [hsteps, Function.update_of_ne hid], RunRecord.stepAttempts_put_ne h.attempts ?_⟩
  rw [hv.startable.next.stepId]
  exact hid.symm

/-- A step whose request has been submitted is in flight. -/
theorem RunView.Starts.passed (h : v.Starts prepared false v') (hv : v.Upcoming cfg prepared)
    (hkeyed : v'.Keyed) : v.Passed prepared v' := by
  obtain ⟨row, hrow, hsteps⟩ := h.steps
  obtain ⟨future, hinFlight⟩ := h.inFlight
  rw [if_neg Bool.false_ne_true] at hinFlight
  have hstate : v'.stateOf prepared.step.id = some .running := by
    rw [RunRecord.stateOf, hsteps, Function.update_self, Option.map_some, hrow]
  refine ⟨h.definition, h.runId, @RunView.Fate.inFlight v prepared v' future hstate ?_ ?_,
    fun _ hid => h.others hv hid, ?_, h.effects hv hkeyed⟩
  · rw [RunRecord.mem_stepAttempts, h.attempts]
    exact ⟨KeyedTable.mem_put.mpr (Or.inl rfl), hv.startable.next.stepId⟩
  · rw [hinFlight]
    exact List.mem_append_right _ (List.mem_singleton_self _)
  · rw [hinFlight]
    exact List.subset_append_left _ _

/-- A step whose request was not submitted has been started, and nobody has its request. -/
theorem RunView.Starts.abandoned (h : v.Starts prepared true v') (hv : v.Upcoming cfg prepared) :
    v'.Abandoned prepared := by
  obtain ⟨row, hrow, hsteps⟩ := h.steps
  refine ⟨h.state, h.definition ▸ hv.step_mem, ?_, ?_, hv.phase, hv.startable.next.stepId,
    hv.startable.next.status, ?_, hv.startable.context⟩
  · rw [RunRecord.stateOf, hsteps, Function.update_self, Option.map_some, hrow]
  · rw [h.attempts]
    exact KeyedTable.mem_put.mpr (Or.inl rfl)
  · rw [hv.startable.runId, hv.startable.next.runId, h.runId]

/-- What the failure of a submission makes of its step. -/
theorem forwardResult_submissionFailed {context : ToolExecutionContext} {retry : RetryPolicy}
    {instant : Timestamp} : forwardResult retry
      (failedOutcome context .retryable "tool submission failed") instant =
        if context.attemptNumber < retry.maxAttempts then
          (instant.addSeconds retry.initialBackoffSeconds).map fun next => (.retryWait, some next)
        else .ok (.failed, none) := by
  have hstatus : (failedOutcome context .retryable "tool submission failed").status = .failed := rfl
  have hclass : (failedOutcome context .retryable "tool submission failed").errorClass =
    some .retryable := rfl
  simp only [forwardResult, hstatus, hclass, reduceCtorEq, if_false, true_and, Option.some.injEq]
  rfl

/-- A step whose submission failed has that failure on record. -/
theorem RunView.Starts.passed_of_records (h : v.Starts prepared true v')
    (hv : v.Upcoming cfg prepared) (hkeyed : v'.Keyed) {instant : Timestamp}
    (hrecords : v'.RecordsFailure prepared instant
      (if prepared.attempt.attemptNo < prepared.step.retry.maxAttempts then .retryWait
        else .failed) v'') (hkeyed' : v''.Keyed) : v.Passed prepared v'' := by
  obtain ⟨row, hrow, hsteps⟩ := hrecords.steps
  obtain ⟨nextAttemptAt, result, hattempts⟩ := hrecords.attempts
  obtain ⟨_, hinFlight⟩ := h.inFlight
  rw [if_pos rfl, List.append_nil] at hinFlight
  have hstate := show v''.stateOf prepared.step.id = _ by
    rw [RunRecord.stateOf, hsteps, Function.update_self, Option.map_some, hrow]
  refine ⟨hrecords.definition.trans h.definition, hrecords.runId.trans h.runId,
    @RunView.Fate.submissionFailed v prepared v'' instant nextAttemptAt result hstate ?_,
    fun id hid => ?_, ?_, ?_⟩
  · rw [RunRecord.mem_stepAttempts, hattempts]
    exact ⟨KeyedTable.mem_put.mpr (Or.inl rfl), hv.startable.next.stepId⟩
  · obtain ⟨hsteps', hattempts'⟩ := h.others hv hid
    refine ⟨by rw [hsteps, Function.update_of_ne hid, hsteps'],
      (RunRecord.stepAttempts_put_ne hattempts ?_).trans hattempts'⟩
    exact (h.abandoned hv).stepId ▸ hid.symm
  · rw [hrecords.inFlight, hinFlight]
    exact List.Subset.refl _
  · refine ((h.abandoned hv).effects hkeyed hkeyed' hrecords.definition hsteps ?_ hattempts).trans
      (h.effects hv hkeyed)
    rw [hrow]
    split <;> simp

end

/-! ## The attempts after it -/

section

variable {cfg : Deployment} {v v' w : RunView} {prepared : PreparedAttempt}
  {rest : List PreparedAttempt}

theorem RunView.Fate.later (h : v.Fate prepared v')
    (hsteps : w.steps prepared.step.id = v'.steps prepared.step.id)
    (hattempts : w.stepAttempts prepared.step.id = v'.stepAttempts prepared.step.id)
    (hinFlight : v'.inFlight ⊆ w.inFlight) : v.Fate prepared w := by
  have hstates : w.stateOf prepared.step.id = v'.stateOf prepared.step.id :=
    congrArg (Option.map StepRun.state) hsteps
  cases h with
  | notStarted hsteps' hattempts' =>
      exact .notStarted (hsteps.trans hsteps') (hattempts.trans hattempts')
  | inFlight hstate hattempt howned =>
      exact .inFlight (hstates.trans hstate) (hattempts ▸ hattempt) (hinFlight howned)
  | submissionFailed hstate hattempt =>
      exact .submissionFailed (hstates.trans hstate) (hattempts ▸ hattempt)

theorem RunView.Fate.earlier (h : v'.Fate prepared w)
    (hsteps : v'.steps prepared.step.id = v.steps prepared.step.id)
    (hattempts : v'.stepAttempts prepared.step.id = v.stepAttempts prepared.step.id) :
    v.Fate prepared w := by
  cases h with
  | notStarted hsteps' hattempts' =>
      exact .notStarted (hsteps'.trans hsteps) (hattempts'.trans hattempts)
  | inFlight hstate hattempt howned => exact .inFlight hstate hattempt howned
  | submissionFailed hstate hattempt => exact .submissionFailed hstate hattempt

theorem RunView.dispatched_nil : v.Dispatched [] v :=
  ⟨rfl, by simp, fun _ _ => ⟨rfl, rfl⟩, List.Subset.refl _, by simp⟩

/-- The first attempt is the last that is started. -/
theorem RunView.Passed.dispatched_of_stop (h : v.Passed prepared v')
    (hdistinct : prepared.step.id ∉ rest.map fun p => p.step.id)
    (hfailed : v'.stateOf prepared.step.id = some .failed)
    (hstate : v'.run.state =
      if compensable v.definition v.stepRuns v.attempts.rows = [] then .failed
      else .compensating) : v.Dispatched (prepared :: rest) v' := by
  refine ⟨h.definition, List.forall_mem_cons.mpr ⟨h.fate, fun p hp => ?_⟩, fun id hid => ?_,
    h.inFlight, ?_⟩
  · obtain ⟨hsteps, hattempts⟩ := h.others p.step.id fun hid =>
      hdistinct (List.mem_map.mpr ⟨p, hp, hid⟩)
    exact .notStarted hsteps hattempts
  · exact h.others id fun hid' => hid (hid' ▸ List.mem_cons_self)
  · rw [if_pos ⟨prepared, List.mem_cons_self, hfailed⟩]
    exact hstate

/-- The first attempt, and then the others. -/
theorem RunView.Passed.dispatched_cons (h : v.Passed prepared v')
    (hdistinct : prepared.step.id ∉ rest.map fun p => p.step.id)
    (hfailed : v'.stateOf prepared.step.id ≠ some .failed) (hrunning : v'.run.state = .running)
    (hrest : v'.Dispatched rest w) : v.Dispatched (prepared :: rest) w := by
  obtain ⟨hsteps, hattempts⟩ := hrest.others _ hdistinct
  have hstates : w.stateOf prepared.step.id = v'.stateOf prepared.step.id :=
    congrArg (Option.map StepRun.state) hsteps
  refine ⟨hrest.definition.trans h.definition, List.forall_mem_cons.mpr
    ⟨h.fate.later hsteps hattempts hrest.inFlight, fun p hp => ?_⟩, fun id hid => ?_,
    List.Subset.trans h.inFlight hrest.inFlight, ?_⟩
  · obtain ⟨hsteps', hattempts'⟩ := h.others p.step.id fun hid =>
      hdistinct (List.mem_map.mpr ⟨p, hp, hid⟩)
    exact (hrest.fates p hp).earlier hsteps' hattempts'
  · rw [List.map_cons, List.mem_cons, not_or] at hid
    obtain ⟨hsteps', hattempts'⟩ := hrest.others id hid.2
    exact ⟨hsteps'.trans (h.others id hid.1).1, hattempts'.trans (h.others id hid.1).2⟩
  · have hsame : (∃ p ∈ prepared :: rest, w.stateOf p.step.id = some .failed) ↔
        ∃ p ∈ rest, w.stateOf p.step.id = some .failed := by
      rw [List.exists_mem_cons_iff, hstates]
      exact or_iff_right hfailed
    rw [hrest.state, h.effects, hrunning]
    simp only [hsame, List.cons_ne_nil, if_false, ite_self]

/-- The others still wait. -/
theorem RunView.Passed.awaits (h : v.Passed prepared v') (hv : v.Awaits (prepared :: rest))
    (hforward : v'.run.state.Forward) : v'.Awaits rest := by
  obtain ⟨hfirst, hready⟩ := List.forall_mem_cons.mp hv.ready
  obtain ⟨-, hprepared⟩ := List.forall_mem_cons.mp hv.prepared
  obtain ⟨hnew, hdistinct⟩ := List.nodup_cons.mp hv.distinct
  have hother (p : PreparedAttempt) (hp : p ∈ rest) : v'.steps p.step.id = v.steps p.step.id :=
    (h.others _ fun hid => hnew (List.mem_map.mpr ⟨p, hp, hid⟩)).1
  refine ⟨hforward, fun step hstep => ?_, fun p hp => ?_, fun p hp => ?_, hdistinct⟩
  · by_cases hsame : step.id = prepared.step.id
    · have hstate : (v'.stateOf prepared.step.id).isSome := by
        cases h.fate with
        | notStarted hsteps =>
            rw [RunRecord.stateOf, hsteps]
            exact Option.isSome_of_eq_some hfirst
        | inFlight hstate => rw [hstate]; rfl
        | submissionFailed hstate => rw [hstate]; rfl
      rw [hsame]
      exact Option.isSome_map.symm.trans hstate
    · rw [(h.others _ hsame).1]
      exact hv.stocked step (h.definition ▸ hstep)
  · rw [RunRecord.stateOf, hother p hp]
    exact hready p hp
  · rw [h.runId]
    exact hprepared p hp

theorem RunView.Passed.tolerated_iff {submissions : Submissions} (h : v.Passed prepared v') :
    submissions.Tolerated v'.toRunRecord rest ↔ submissions.Tolerated v.toRunRecord rest := by
  unfold Submissions.Tolerated
  rw [h.effects]

end

/-! ## The loop -/

section

variable {cfg : Deployment} {runId : String} {submissions : Submissions} {s t : Shared}
  {v v' : RunView} {prepared : PreparedAttempt} {rest : List PreparedAttempt}

/-- The loop comes to its end if the failures are tolerated, and raises otherwise. -/
def Submissions.Concludes (submissions : Submissions) (runId : String) (v : RunView)
    (attempts : List PreparedAttempt) (result : Except Error (List String)) (t : Shared) : Prop :=
  (submissions.Tolerated v.toRunRecord attempts ∧ ∃ ids v',
    result = .ok ids ∧ t.view runId = some v' ∧ v.Dispatched attempts v') ∨
  (¬ submissions.Tolerated v.toRunRecord attempts ∧ ∃ e, result = .error e)

/-- The reading of the clock does not matter to what has been passed. -/
theorem RunView.Passed.of_latest {instant instant' : Timestamp}
    (h : ({ v with latest := instant } : RunView).Passed prepared v') :
    v.Passed prepared { v' with latest := instant' } where
  definition := h.definition
  runId := h.runId
  fate := (h.fate.earlier (v := v) rfl rfl).later rfl rfl (List.Subset.refl _)
  others := h.others
  inFlight := h.inFlight
  effects := h.effects

/-- The loop goes on with the other attempts. -/
theorem RunView.Passed.concludes (hpassed : v.Passed prepared v')
    (hdistinct : prepared.step.id ∉ rest.map fun p => p.step.id)
    (hfailed : v'.stateOf prepared.step.id ≠ some .failed) (hrunning : v'.run.state = .running)
    (htolerated : submissions.Tolerated v.toRunRecord (prepared :: rest) ↔
      submissions.Tolerated v.toRunRecord rest)
    (hrest : ∀ {result}, submissions.Ends cfg (dispatchEach runId rest) s result t →
      submissions.Concludes runId v' rest result t) {result : Except Error (List String)}
    (hends : submissions.Ends cfg (do
      let others ← dispatchEach runId rest
      return prepared.step.id :: others) s result t) :
    submissions.Concludes runId v (prepared :: rest) result t := by
  have hiff := hpassed.tolerated_iff.trans htolerated.symm
  rcases Routine.interleaved_bind hends with ⟨others, u, hothers, hthen⟩ | ⟨e, hothers, rfl⟩
  · obtain ⟨rfl, rfl⟩ := Routine.interleaved_pure hthen
    rcases hrest hothers with ⟨htolerates, ids, w, _, hw, hdispatched⟩ | ⟨_, e, herror⟩
    · exact Or.inl ⟨hiff.mp htolerates, _, w, rfl, hw,
        hpassed.dispatched_cons hdistinct hfailed hrunning hdispatched⟩
    · cases herror
  · rcases hrest hothers with ⟨_, ids, _, hok, _⟩ | ⟨hraises, _⟩
    · cases hok
    · exact Or.inr ⟨fun htolerates => hraises (hiff.mpr htolerates), e, rfl⟩

theorem Submissions.Concludes.of_latest {instant : Timestamp} {attempts : List PreparedAttempt}
    {result : Except Error (List String)}
    (h : submissions.Concludes runId { v with latest := instant } attempts result t) :
    submissions.Concludes runId v attempts result t := by
  rcases h with ⟨htolerates, ids, w, hresult, hw, hdispatched⟩ | hraises
  · exact Or.inl ⟨htolerates, ids, w, hresult, hw, hdispatched.definition,
      fun p hp => (hdispatched.fates p hp).earlier rfl rfl, hdispatched.others,
      hdispatched.inFlight, hdispatched.state⟩
  · exact Or.inr hraises

/-- The loop once the failure of a submission has been recorded. -/
def dispatchAfterFailure (runId : String) (prepared : PreparedAttempt)
    (rest : List PreparedAttempt) : Activity (List String) := do
  if isTerminal (← Activity.getRun runId) then return [prepared.step.id]
  let others ← dispatchEach runId rest
  return prepared.step.id :: others

/-- The loop once the first attempt has been started. -/
def dispatchAfter (runId : String) (prepared : PreparedAttempt) (rest : List PreparedAttempt)
    (submitted : Bool) : Activity (List String) := do
  if submitted then
    let others ← dispatchEach runId rest
    return prepared.step.id :: others
  Activity.persistSubmissionFailure prepared .retryable
  dispatchAfterFailure runId prepared rest

/-- The state of the run as it is recorded decides whether the loop ends. -/
theorem dispatchAfterFailure_ends {result : Except Error (List String)}
    (hcarries : s.Carries cfg (ExceptT.run (dispatchAfterFailure runId prepared rest)))
    (hv : s.view runId = some v)
    (hends : submissions.Ends cfg (dispatchAfterFailure runId prepared rest) s result t) :
    ∃ s', s'.view runId = some { v with latest := s'.latest } ∧
      if v.run.state.Terminal then result = .ok [prepared.step.id] ∧ t = s'
      else s'.Carries cfg (ExceptT.run (dispatchEach runId rest)) ∧
        submissions.Ends cfg (do
          let others ← dispatchEach runId rest
          return prepared.step.id :: others) s' result t := by
  obtain ⟨s', inputs, hpassed, ⟨run, u, hexec, hthen⟩ | ⟨e, hexec, _⟩⟩ :=
    Routine.interleaved_perform_bind hends
  case inr => cases hexec
  -- the loop looks at its run again before it goes on
  have hv' := (Shared.still_of_passes cfg hpassed hcarries.wellFormed).view hv
  have hcarries' := (hcarries.still hpassed).perform inputs
  obtain ⟨hread, rfl⟩ := Prod.mk.inj hexec
  obtain rfl : s'.store.runs.get runId = run := Except.ok.inj hread
  have hrun : s'.store.runs.get runId = some v.run :=
    MemoryStore.runs_get_of_record (Shared.view_eq_some_iff.mp hv').1
  have hterminal : isTerminal (s'.store.runs.get runId) = decide v.run.state.Terminal := by
    rw [hrun]
    rfl
  refine ⟨s', hv', ?_⟩
  rw [hterminal] at hthen
  split
  case isTrue hended =>
    rw [if_pos (decide_eq_true hended)] at hthen
    exact Routine.interleaved_pure hthen
  case isFalse hgoes =>
    rw [if_neg (by simpa using hgoes)] at hthen
    have hrest : s'.Carries cfg (ExceptT.run (if isTerminal (s'.store.runs.get runId) then
        pure [prepared.step.id]
      else do
        let others ← dispatchEach runId rest
        return prepared.step.id :: others : Activity (List String))) := hcarries'
    rw [hterminal, if_neg (by simpa using hgoes)] at hrest
    exact ⟨Shared.Carries.of_bind (show s'.Carries cfg (ExceptT.run (dispatchEach runId rest) >>=
      ExceptT.bindCont _) from hrest), hthen⟩

theorem Shared.Dispatches.still (hs : s.Dispatches cfg runId (prepared :: rest)) {s' : Shared}
    (hpassed : Relation.ReflTransGen Shared.Passes s s') :
    s'.Dispatches cfg runId (prepared :: rest) :=
  ⟨hs.carries.still hpassed,
    hs.awaits.of_store (Shared.still_of_passes cfg hpassed hs.carries.wellFormed).store⟩

/-- What is there when the next attempt is to be started. -/
theorem Shared.Dispatches.upcoming (hs : s.Dispatches cfg runId (prepared :: rest))
    (hv : s.view runId = some v) : v.Upcoming cfg prepared ∧ v.Awaits (prepared :: rest) := by
  obtain ⟨hrecord, -, -⟩ := Shared.view_eq_some_iff.mp hv
  obtain ⟨w, hw, hawaits⟩ := hs.awaits
  obtain rfl := Option.some.inj (hw.symm.trans hrecord)
  obtain ⟨hrunId, -, hphase⟩ := hawaits.prepared prepared List.mem_cons_self
  have henabled := hs.carries.enabled
  refine ⟨⟨MemoryStore.keyed_of_record hrecord, henabled v ?_, hphase,
    hawaits.ready prepared List.mem_cons_self⟩, hawaits⟩
  rw [hrunId, MemoryStore.runId_of_record hrecord]
  exact hv

/-- The next attempt is started. -/
theorem Shared.Dispatches.starts (hs : s.Dispatches cfg runId (prepared :: rest))
    (hv : s.view runId = some v) (inputs : Inputs) : ∃ u v',
      exec cfg (.dispatch prepared) inputs s = (.ok (!inputs.submitFails), u) ∧
        u.view runId = some v' ∧ v.Starts prepared inputs.submitFails v' ∧
          u.Carries cfg (ExceptT.run (dispatchAfter runId prepared rest (!inputs.submitFails))) := by
  obtain ⟨hup, hawaits⟩ := hs.upcoming hv
  obtain ⟨u, v', hdispatch, hu, hstarts⟩ := Shared.dispatch_starts hs.carries.wellFormed
    hs.carries.unambiguous hv hup.startable hup.phase
    (by simpa [RunState.Forward] using hawaits.forward) hup.ready inputs.submitFails
  have hcarries := hs.carries.perform inputs
  have hexec : exec cfg (.dispatch prepared) inputs s = (.ok (!inputs.submitFails), u) := hdispatch
  rw [hexec] at hcarries
  exact ⟨u, v', hexec, hu, hstarts, hcarries⟩

/-- The failure of the submission has been recorded. -/
structure RunView.FailureRecorded (v : RunView) (prepared : PreparedAttempt) (v' : RunView) :
    Prop where
  passed : v.Passed prepared v'
  stateOf : v'.stateOf prepared.step.id = some
    (if prepared.attempt.attemptNo < prepared.step.retry.maxAttempts then .retryWait else .failed)
  state : v'.run.state =
    if prepared.attempt.attemptNo < prepared.step.retry.maxAttempts then .running
    else if compensable v.definition v.stepRuns v.attempts.rows = [] then .failed
    else .compensating

/-- The failure of the submission is recorded, unless there is no instant for the retry. -/
theorem RunView.Starts.failure_ends (hstarts : v.Starts prepared true v')
    (hup : v.Upcoming cfg prepared) (hstocked : v'.Stocked)
    (hcarries : s.Carries cfg (ExceptT.run (dispatchAfter runId prepared rest false)))
    (hv' : s.view runId = some v') {result : Except Error (List String)}
    (hends : submissions.Ends cfg (dispatchAfter runId prepared rest false) s result t) :
    (prepared.attempt.attemptNo < prepared.step.retry.maxAttempts ∧
        (∀ next, (submissions.recordedAt prepared.step.id).addSeconds
          prepared.step.retry.initialBackoffSeconds ≠ .ok next) ∧ ∃ e, result = .error e) ∨
      ((prepared.attempt.attemptNo < prepared.step.retry.maxAttempts →
        ∃ next, (submissions.recordedAt prepared.step.id).addSeconds
          prepared.step.retry.initialBackoffSeconds = .ok next) ∧
        ∃ x w, x.view runId = some w ∧ v.FailureRecorded prepared w ∧
          x.Carries cfg (ExceptT.run (dispatchAfterFailure runId prepared rest)) ∧
          submissions.Ends cfg (dispatchAfterFailure runId prepared rest) x result t) := by
  obtain ⟨s', inputs, hpassed, hthen⟩ := Routine.interleaved_perform_bind hends
  have hticked := hpassed.tail (.tick (submissions.recordedAt prepared.step.id))
  have hcarries' := hcarries.still hticked
  have hview := (Shared.still_of_passes cfg hticked hcarries.wellFormed).view hv'
  have hstarted : v.Starts prepared true
      { v' with latest := (s'.tick (submissions.recordedAt prepared.step.id)).latest } :=
    ⟨hstarts.state, hstarts.runId, hstarts.definition, hstarts.approvals, hstarts.steps,
      hstarts.attempts, hstarts.inFlight⟩
  -- the failed submission is recorded like a retryable outcome
  have habandoned := hstarted.abandoned hup
  have hresult := @forwardResult_submissionFailed prepared.context prepared.step.retry
    (submissions.recordedAt prepared.step.id)
  rw [habandoned.context.attemptNo] at hresult
  by_cases hnone : prepared.attempt.attemptNo < prepared.step.retry.maxAttempts ∧
    ∀ next, (submissions.recordedAt prepared.step.id).addSeconds
      prepared.step.retry.initialBackoffSeconds ≠ .ok next
  -- the time of the next attempt lies beyond the calendar
  case pos =>
    obtain ⟨hretry, hnever⟩ := hnone
    cases hnext : (submissions.recordedAt prepared.step.id).addSeconds
        prepared.step.retry.initialBackoffSeconds with
    | ok next => exact absurd hnext (hnever next)
    | error error =>
        rw [if_pos hretry, hnext] at hresult
        obtain ⟨e', t', hraises⟩ := Shared.recordOutcome_raises hcarries'.wellFormed hview habandoned
          hresult
        rcases hthen with ⟨_, _, hexec, _⟩ | ⟨e, _, hraised⟩
        · cases hraises.symm.trans hexec
        · exact Or.inl ⟨hretry, by simp, e, hraised⟩
  case neg =>
    have hnext (hretry : prepared.attempt.attemptNo < prepared.step.retry.maxAttempts) :
        ∃ next, (submissions.recordedAt prepared.step.id).addSeconds
          prepared.step.retry.initialBackoffSeconds = .ok next := by
      by_contra hnever
      exact hnone ⟨hretry, fun next hnext => hnever ⟨next, hnext⟩⟩
    -- it can be computed, or no attempt is left
    obtain ⟨nextAttemptAt, hok⟩ : ∃ nextAttemptAt, forwardResult prepared.step.retry
        (failedOutcome prepared.context .retryable "tool submission failed")
          (submissions.recordedAt prepared.step.id) = .ok
            (if prepared.attempt.attemptNo < prepared.step.retry.maxAttempts then .retryWait
              else .failed, nextAttemptAt) := by
      rw [hresult]
      split
      case isTrue hretry =>
        obtain ⟨next, hnext⟩ := hnext hretry
        exact ⟨some next, by rw [hnext]; rfl⟩
      case isFalse => exact ⟨none, rfl⟩
    obtain ⟨x, w, hrecord, hw, hrecords⟩ := Shared.recordOutcome_records hcarries'.wellFormed
      hcarries'.unambiguous hview hstocked habandoned hok
    rcases hthen with ⟨_, u, hexec, hthen⟩ | ⟨_, hexec, _⟩
    case inr => cases hrecord.symm.trans hexec
    obtain ⟨_, rfl⟩ := Prod.mk.inj (hrecord.symm.trans hexec)
    have hthere := hcarries'.perform inputs
    rw [show exec cfg (.persistSubmissionFailure prepared .retryable) inputs
      (s'.tick (submissions.recordedAt prepared.step.id)) = (.ok (), x) from hrecord] at hthere
    have hkeyed := MemoryStore.keyed_of_record (Shared.view_eq_some_iff.mp hview).1
    refine Or.inr ⟨hnext, x, w, hw, ⟨hstarted.passed_of_records hup hkeyed hrecords
      (MemoryStore.keyed_of_record (Shared.view_eq_some_iff.mp hw).1), ?_, ?_⟩, ?_, hthen⟩
    · obtain ⟨row, hrow, hsteps⟩ := hrecords.steps
      rw [RunRecord.stateOf, hsteps, Function.update_self, Option.map_some, hrow]
    · rw [hrecords.state, hstarted.effects hup hkeyed]
      split <;> simp
    · exact hthere

theorem RunView.Starts.stocked {submitFails : Bool} (h : v.Starts prepared submitFails v')
    (hv : v.Stocked) : v'.Stocked := by
  obtain ⟨row, _, hsteps⟩ := h.steps
  exact hv.update h.definition hsteps

/-- Nothing more is started in a run that is being compensated. -/
theorem dispatchEach_raises {next : PreparedAttempt} {others : List PreparedAttempt}
    (hcarries : s.Carries cfg (ExceptT.run (dispatchEach runId (next :: others))))
    (hv : s.view runId = some v) (hrunId : next.attempt.runId = runId)
    (hphase : next.attempt.phase = .forward) (hrun : v.run.state = .compensating)
    {result : Except Error (List String)}
    (hends : submissions.Ends cfg (dispatchEach runId (next :: others)) s result t) :
    ∃ e, result = .error e := by
  obtain ⟨s', inputs, hpassed, hthen⟩ := Routine.interleaved_perform_bind hends
  have hcarries' := hcarries.still hpassed
  have hv' := (Shared.still_of_passes cfg hpassed hcarries.wellFormed).view hv
  have henabled : ({ v with latest := s'.latest } : RunView).Startable cfg next :=
    hcarries'.enabled _ (hrunId ▸ hv')
  obtain ⟨e, hraises⟩ := Shared.dispatch_raises hcarries'.wellFormed hv' henabled hphase
    (by simp [hrun]) (submissions.fails next.step.id)
  rcases hthen with ⟨_, _, hexec, _⟩ | ⟨e, _, hraised⟩
  · cases hraises.symm.trans hexec
  · exact ⟨e, hraised⟩

/-- The loop once the attempts of the first step have been used up. -/
theorem RunView.FailureRecorded.concludes (h : v.FailureRecorded prepared v')
    (hawaits : v.Awaits (prepared :: rest))
    (hfails : submissions.fails prepared.step.id = true)
    (hlast : ¬ prepared.attempt.attemptNo < prepared.step.retry.maxAttempts)
    (hv' : s.view runId = some v') {result : Except Error (List String)}
    (hthen : if v'.run.state.Terminal then result = .ok [prepared.step.id] ∧ t = s
      else s.Carries cfg (ExceptT.run (dispatchEach runId rest)) ∧
        submissions.Ends cfg (do
          let others ← dispatchEach runId rest
          return prepared.step.id :: others) s result t) :
    submissions.Concludes runId v (prepared :: rest) result t := by
  obtain ⟨hnew, -⟩ := List.nodup_cons.mp hawaits.distinct
  have hgivesUp : submissions.GivesUp prepared := ⟨hfails, not_lt.mp hlast⟩
  -- what is tolerated of the attempts, now that the first one has given up
  have htolerated : submissions.Tolerated v.toRunRecord (prepared :: rest) ↔
      rest = [] ∨ compensable v.definition v.stepRuns v.attempts.rows = [] := by
    simp only [Submissions.tolerated_cons, hfails, hlast, hgivesUp, if_false, true_imp_iff,
      not_true, false_imp_iff, and_true]
  have hstate := h.state
  have hfailed := h.stateOf
  rw [if_neg hlast] at hstate hfailed
  have hdispatched := h.passed.dispatched_of_stop hnew hfailed hstate
  by_cases hnothing : compensable v.definition v.stepRuns v.attempts.rows = []
  -- no effect to undo: the run has failed, and the loop ends
  case pos =>
    rw [if_pos hnothing] at hstate
    rw [if_pos (by simp [hstate, RunState.Terminal])] at hthen
    obtain ⟨rfl, rfl⟩ := hthen
    exact Or.inl ⟨htolerated.mpr (Or.inr hnothing), _, v', rfl, hv', hdispatched⟩
  -- the run compensates, which the loop does not take for an end
  case neg =>
    rw [if_neg hnothing] at hstate
    rw [if_neg (by simp [hstate, RunState.Terminal])] at hthen
    obtain ⟨hcarries, hends⟩ := hthen
    cases rest with
    | nil =>
        obtain ⟨rfl, rfl⟩ := Routine.interleaved_pure hends
        exact Or.inl ⟨htolerated.mpr (Or.inl rfl), _, v', rfl, hv', hdispatched⟩
    -- so it tries to start the next forward attempt, and that raises
    | cons next others =>
        refine Or.inr ⟨fun htolerates => (htolerated.mp htolerates).elim (by simp) hnothing, ?_⟩
        obtain ⟨hrunId, -, hphase⟩ := hawaits.prepared next (by simp)
        have hnextRun : next.attempt.runId = runId := by
          rw [hrunId, ← h.passed.runId]
          exact MemoryStore.runId_of_record (Shared.view_eq_some_iff.mp hv').1
        rcases Routine.interleaved_bind hends with ⟨ids, _, hothers, _⟩ | ⟨e, _, hraised⟩
        · obtain ⟨e, hraised⟩ := dispatchEach_raises hcarries hv' hnextRun hphase hstate hothers
          cases hraised
        · exact ⟨e, hraised⟩

/-- The loop once the first attempt has been started. -/
theorem RunView.Starts.concludes (ih : ∀ {s : Shared} {v : RunView}
      {result : Except Error (List String)}, s.Dispatches cfg runId rest → s.view runId = some v →
        submissions.Ends cfg (dispatchEach runId rest) s result t →
          submissions.Concludes runId v rest result t)
    (hstarts : v.Starts prepared (submissions.fails prepared.step.id) v')
    (hup : v.Upcoming cfg prepared) (hawaits : v.Awaits (prepared :: rest))
    (hv' : s.view runId = some v')
    (hcarries : s.Carries cfg (ExceptT.run
      (dispatchAfter runId prepared rest (!submissions.fails prepared.step.id))))
    {result : Except Error (List String)}
    (hends : submissions.Ends cfg
      (dispatchAfter runId prepared rest (!submissions.fails prepared.step.id)) s result t) :
    submissions.Concludes runId v (prepared :: rest) result t := by
  obtain ⟨hnew, -⟩ := List.nodup_cons.mp hawaits.distinct
  -- the others are started in a run that goes on
  have hothers {x : Shared} {w : RunView} (hpassed : v.Passed prepared w)
      (hrunning : w.run.state = .running) (hx : x.view runId = some w)
      (hrest : x.Carries cfg (ExceptT.run (dispatchEach runId rest)))
      {result : Except Error (List String)}
      (hends : submissions.Ends cfg (dispatchEach runId rest) x result t) :
      submissions.Concludes runId w rest result t :=
    ih ⟨hrest, _, (Shared.view_eq_some_iff.mp hx).1,
      hpassed.awaits hawaits (by simp [hrunning, RunState.Forward])⟩ hx hends
  cases hfails : submissions.fails prepared.step.id with
  | false =>
      rw [hfails] at hstarts hcarries hends
      have hpassed := hstarts.passed hup
        (MemoryStore.keyed_of_record (Shared.view_eq_some_iff.mp hv').1)
      have hrest : s.Carries cfg (ExceptT.run (dispatchEach runId rest)) :=
        Shared.Carries.of_bind (show s.Carries cfg (ExceptT.run (dispatchEach runId rest) >>=
          ExceptT.bindCont _) from hcarries)
      obtain ⟨row, hrow, hsteps⟩ := hstarts.steps
      refine hpassed.concludes hnew ?_ hstarts.state ?_
        (hothers hpassed hstarts.state hv' hrest) hends
      · simp [RunRecord.stateOf, hsteps, hrow]
      · simp [Submissions.tolerated_cons, Submissions.GivesUp, hfails]
  | true =>
      rw [hfails] at hstarts hcarries hends
      rcases hstarts.failure_ends hup (hstarts.stocked hawaits.stocked) hcarries hv' hends with
        ⟨hretry, hnever, e, rfl⟩ | ⟨hnext, x, w, hw, hrecorded, hcarries', hends'⟩
      · refine Or.inr ⟨fun htolerates => ?_, e, rfl⟩
        have hfirst := (Submissions.tolerated_cons.mp htolerates).1 hfails
        rw [if_pos hretry] at hfirst
        obtain ⟨next, hnext⟩ := hfirst
        exact hnever next hnext
      · obtain ⟨y, hy, hthen⟩ := dispatchAfterFailure_ends hcarries' hw hends'
        have hrecorded' : v.FailureRecorded prepared { w with latest := y.latest } :=
          ⟨.of_latest (show ({ v with latest := v.latest } : RunView).Passed prepared w from
            hrecorded.passed), hrecorded.stateOf, hrecorded.state⟩
        by_cases hretry : prepared.attempt.attemptNo < prepared.step.retry.maxAttempts
        · have hrunning : w.run.state = .running := hrecorded.state.trans (if_pos hretry)
          have hwaits := hrecorded'.stateOf
          rw [if_pos hretry] at hwaits
          rw [if_neg (by simp [hrunning, RunState.Terminal])] at hthen
          refine hrecorded'.passed.concludes hnew (by simp [hwaits]) hrunning ?_
            (hothers hrecorded'.passed hrunning hy hthen.1) hthen.2
          simp [Submissions.tolerated_cons, Submissions.GivesUp, hretry, hnext hretry]
        · exact hrecorded'.concludes hawaits hfails hretry hy hthen

/-- The loop over all attempts. -/
theorem dispatchEach_ends (attempts : List PreparedAttempt) : ∀ {s : Shared} {v : RunView}
    {result : Except Error (List String)}, s.Dispatches cfg runId attempts →
      s.view runId = some v → submissions.Ends cfg (dispatchEach runId attempts) s result t →
        submissions.Concludes runId v attempts result t := by
  induction attempts with
  | nil =>
      intro s v result _ hv hends
      obtain ⟨rfl, rfl⟩ := Routine.interleaved_pure hends
      exact Or.inl ⟨fun front _ _ hsplit => by simp at hsplit, [], v, rfl, hv, RunView.dispatched_nil⟩
  | cons prepared rest ih =>
      intro s v result hs hv hends
      obtain ⟨s', inputs, hpassed, hthen⟩ := Routine.interleaved_perform_bind hends
      have hs' := hs.still hpassed
      have hv' := (Shared.still_of_passes cfg hpassed hs.carries.wellFormed).view hv
      obtain ⟨hup, hawaits⟩ := hs'.upcoming hv'
      obtain ⟨hnew, -⟩ := List.nodup_cons.mp hawaits.distinct
      obtain ⟨u, w, hexec, hw, hstarts, hcarries⟩ := hs'.starts hv'
        { inputs with submitFails := submissions.fails prepared.step.id }
      rcases hthen with ⟨submitted, u', hexec', hthen⟩ | ⟨e, hexec', _⟩
      case inr => cases hexec.symm.trans hexec'
      obtain ⟨hanswer, rfl⟩ := Prod.mk.inj (hexec.symm.trans hexec')
      obtain rfl := Except.ok.inj hanswer
      exact Submissions.Concludes.of_latest (hstarts.concludes ih hup hawaits hw hcarries hthen)

end

/-! ## The end of the turn -/

section

variable {cfg : Deployment} {runId : String} {submissions : Submissions} {s t : Shared}

theorem collectEach_ends {now : Timestamp} (ids : List ℕ) : ∀ {s : Shared}
    {result : Except Error (List ExecutionOutcome × Bool)},
      submissions.Ends cfg (collectEach now ids) s result t → ∃ collected, result = .ok collected := by
  induction ids with
  | nil =>
      intro s result hends
      exact ⟨_, (Routine.interleaved_pure hends).1⟩
  | cons id rest ih =>
      intro s result hends
      obtain ⟨s', inputs, _, ⟨answer, u, _, hthen⟩ | ⟨e, hexec, _⟩⟩ :=
        Routine.interleaved_perform_bind hends
      case inr => cases hexec
      rcases Routine.interleaved_bind hthen with ⟨others, u', _, hthen⟩ | ⟨e, hothers, _⟩
      · cases answer <;> exact ⟨_, (Routine.interleaved_pure hthen).1⟩
      · obtain ⟨_, hok⟩ := ih hothers
        cases hok

/-- Collecting outcomes at the end of a turn raises nothing. -/
theorem dispatchedReport_ends {completed : List ExecutionOutcome} {dispatched : List String}
    {result : Except Error CoordinationReport}
    (hends : submissions.Ends cfg (dispatchedReport runId completed dispatched) s result t) :
    ∃ report, result = .ok report ∧ report.dispatched = dispatched := by
  rcases Routine.interleaved_bind hends with ⟨collected, u, _, hthen⟩ | ⟨e, hcollects, _⟩
  · exact ⟨_, (Routine.interleaved_pure hthen).1, rfl⟩
  · obtain ⟨_, _, _, ⟨_, _, _, hthen⟩ | ⟨_, hexec, _⟩⟩ := Routine.interleaved_perform_bind hcollects
    case inr => cases hexec
    obtain ⟨_, _, _, ⟨_, _, _, hthen⟩ | ⟨_, hexec, _⟩⟩ := Routine.interleaved_perform_bind hthen
    case inr => cases hexec
    obtain ⟨_, hok⟩ := collectEach_ends _ hthen
    cases hok

/-- A turn, in which nobody else writes to the store, returns with all prepared attempts
accounted for, exactly if the failures of its submissions are tolerated. -/
theorem Reachable.dispatchTurn_returns_iff {w : World} (h : Reachable cfg (fun _ _ => True) w)
    {run : WorkflowRun} (hrun : w.shared.store.runs.get runId = some run)
    {completed : List ExecutionOutcome} {collectionFailed : Bool}
    {prepared : List PreparedAttempt}
    (hends : submissions.Ends cfg (prepareTurn cfg runId run completed collectionFailed) w.shared
      (.ok (.inr prepared)) s) :
    ∃ v, s.view runId = some v ∧ ∀ {result t},
      submissions.Ends cfg (dispatchTurn runId completed (.inr prepared)) s result t →
        ((∃ report u v', result = .ok report ∧
            submissions.Ends cfg (dispatchEach runId prepared) s (.ok report.dispatched) u ∧
            u.view runId = some v' ∧ v.Dispatched prepared v' ∧
            submissions.Ends cfg (dispatchedReport runId completed report.dispatched) u
              (.ok report) t) ↔
          submissions.Tolerated v.toRunRecord prepared) := by
  obtain ⟨hsome, hdispatches⟩ := h.dispatches hrun hends
  obtain ⟨record, hrecord, _⟩ := hdispatches.awaits
  refine ⟨_, Shared.view_of_record hrecord, fun hturn => ?_⟩
  rcases Routine.interleaved_bind hturn with ⟨ids, u, hloop, hreport⟩ | ⟨e, hloop, rfl⟩
  · obtain ⟨report, rfl, rfl⟩ := dispatchedReport_ends hreport
    rcases dispatchEach_ends prepared hdispatches (Shared.view_of_record hrecord) hloop with
      ⟨htolerates, _, v', _, hv', hdispatched⟩ | ⟨_, _, hraised⟩
    · exact iff_of_true ⟨report, u, v', rfl, hloop, hv', hdispatched, hreport⟩ htolerates
    · cases hraised
  · rcases dispatchEach_ends prepared hdispatches (Shared.view_of_record hrecord) hloop with
      ⟨_, _, _, hok, _⟩ | ⟨hraises, _⟩
    · cases hok
    · refine iff_of_false ?_ hraises
      rintro ⟨_, _, _, hok, _⟩
      cases hok

end

namespace Sample

/-- The submissions for these steps fail, which is recorded at the instant zero. -/
def unsubmitted (steps : List String) : Submissions where
  fails id := id ∈ steps
  recordedAt _ := 0

/-- How the activity ends if the process performs it by itself, with another new id for each
operation. -/
def alone {α : Type} (submissions : Submissions) (activity : Activity α) (s : Shared) :
    Except Error α × Shared :=
  Prog.run (submissions.exec deployment) (ExceptT.run activity)
    (fun number => { newId := String.ofList (List.replicate number 'n'), selected := some "r" }) s

theorem ends_alone {α : Type} (submissions : Submissions) (activity : Activity α) (s : Shared) :
    submissions.Ends deployment activity s (alone submissions activity s).1
      (alone submissions activity s).2 :=
  Prog.Interleaved.of_run (fun _ => .refl) _ _ s

/-- Two steps that do not wait for each other. -/
def pair : World :=
  World.after deployment 0 (create [stepPayload "A" "change" [] none, stepPayload "B" "change" [] none])

/-- A turn has prepared attempts of these steps, all of which satisfy the check. -/
def preparesAll (steps : List String) (check : PreparedAttempt → Bool) :
    Except Error (CoordinationReport ⊕ List PreparedAttempt) → Bool
  | .ok (.inr prepared) => prepared.map (fun attempt => attempt.step.id) = steps ∧
      prepared.all check = true
  | _ => false

/-- The failure of its submission leads to another attempt. -/
def comesAgain (instant : Timestamp) (prepared : PreparedAttempt) : Bool :=
  prepared.attempt.attemptNo < prepared.step.retry.maxAttempts ∧
    (instant.addSeconds prepared.step.retry.initialBackoffSeconds).isOk

end Sample

open Sample in
/-- The submission for `A` fails, and `B` is started after that. -/
theorem dispatchTurn_returns_iff_pair :
    ∃ (run : WorkflowRun) (prepared : List PreparedAttempt) (s t u : Shared) (v v' : RunView)
      (report : CoordinationReport), pair.shared.store.runs.get "r" = some run ∧
        prepared.map (fun attempt => attempt.step.id) = ["A", "B"] ∧
        (unsubmitted ["A"]).Ends deployment (prepareTurn deployment "r" run [] false)
          pair.shared (.ok (.inr prepared)) s ∧ s.view "r" = some v ∧
        (unsubmitted ["A"]).Ends deployment (dispatchTurn "r" [] (.inr prepared)) s (.ok report) t ∧
        (unsubmitted ["A"]).Ends deployment (dispatchEach "r" prepared) s (.ok report.dispatched) u ∧
        u.view "r" = some v' ∧ v.Dispatched prepared v' := by
  have hreachable : Reachable deployment (fun _ _ => True) pair :=
    reachable_of_forall fun _ _ _ => trivial
  -- what is prepared is decided by evaluation
  have hprepares : (pair.shared.store.runs.get "r").any (fun run =>
      preparesAll ["A", "B"] (comesAgain 0)
        (alone (unsubmitted ["A"]) (prepareTurn deployment "r" run [] false) pair.shared).1) := by
    decide +kernel
  obtain ⟨run, hrun, hprepares⟩ := (Option.any_eq_true _ _).mp hprepares
  have hends := ends_alone (unsubmitted ["A"]) (prepareTurn deployment "r" run [] false)
    pair.shared
  rcases hresult : (alone (unsubmitted ["A"]) (prepareTurn deployment "r" run [] false)
    pair.shared).1 with e | report | prepared <;> rw [hresult] at hprepares hends
  · cases hprepares
  · cases hprepares
  obtain ⟨hsteps, hprepares⟩ := of_decide_eq_true hprepares
  obtain ⟨v, hv, hiff⟩ := hreachable.dispatchTurn_returns_iff hrun hends
  have hturn := ends_alone (unsubmitted ["A"]) (dispatchTurn "r" [] (.inr prepared))
    (alone (unsubmitted ["A"]) (prepareTurn deployment "r" run [] false) pair.shared).2
  -- each of the two may be tried again, at a time that exists
  have htolerated : (unsubmitted ["A"]).Tolerated v.toRunRecord prepared := by
    intro front first rest hsplit _ _
    have hfirst := List.all_eq_true.mp hprepares first (hsplit ▸ by simp)
    obtain ⟨hretry, hnext⟩ := of_decide_eq_true hfirst
    rw [if_pos hretry]
    cases hsum : Timestamp.addSeconds 0 first.step.retry.initialBackoffSeconds with
    | error e => simp [hsum, Except.isOk, Except.toBool] at hnext
    | ok next => exact ⟨next, hsum⟩
  obtain ⟨report, u, v', hreport, hloop, hv', hdispatched, _⟩ := (hiff hturn).mpr htolerated
  exact ⟨run, prepared, _, _, u, v, v', report, hrun, hsteps, hends, hv, hreport ▸ hturn, hloop,
    hv', hdispatched⟩

namespace Sample

/-- A step that may be attempted once. -/
def oncePayload (id : String) (dependsOn : List String) : Value :=
  .ofFields [
    ("id", .str id),
    ("tool", toolPayload "change"),
    ("depends_on", .list (dependsOn.map .str)),
    ("retry", .ofFields [("max_attempts", .int 1)])]

/-- `A` can be undone and has succeeded; `B` and `C` may be attempted once each. -/
def twoAfterOne : List Action :=
  create [stepPayload "A" "change" [] (some "undo"), oncePayload "B" ["A"], oncePayload "C" ["A"]] ++
    runOnce ++ toolSucceeds 0

def raises (error : Error) : Except Error CoordinationReport → Bool
  | .error e => e = error
  | .ok _ => false

end Sample

open Sample in
/-- The submission for `B` fails, and `C` is to be started in a run that is being
compensated. -/
theorem runOnce_raises_after_failure : ∃ (w : World) (t : Shared),
    Reachable deployment (fun _ _ => True) w ∧
      (unsubmitted ["B"]).Ends deployment (ChangePilot.runOnce deployment) w.shared
        (.error (.runtimeError "run is not in a forward execution state")) t := by
  have hends := ends_alone (unsubmitted ["B"]) (ChangePilot.runOnce deployment)
    (World.after deployment 0 twoAfterOne).shared
  have hraises : raises (.runtimeError "run is not in a forward execution state")
      (alone (unsubmitted ["B"]) (ChangePilot.runOnce deployment)
        (World.after deployment 0 twoAfterOne).shared).1 := by
    decide +kernel
  rcases hresult : (alone (unsubmitted ["B"]) (ChangePilot.runOnce deployment)
    (World.after deployment 0 twoAfterOne).shared).1 with e | report <;>
    rw [hresult] at hends hraises
  · obtain rfl := of_decide_eq_true hraises
    exact ⟨_, _, reachable_of_forall fun _ _ _ => trivial, hends⟩
  · cases hraises

end ChangePilot
