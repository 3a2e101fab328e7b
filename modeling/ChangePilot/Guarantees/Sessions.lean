import ChangePilot.Guarantees.Planning
import ChangePilot.Planning.Services
import ChangePilot.Planning.Sessions

/-!
# Planning sessions over whole runs

Any call of the planning service may fail at any of its calls of the repository.  What it
leaves then is still a session: the last plan has the number of plans as its version, and
a last result that is ready has noted the run it comes from, and is the last plan or the
next one.
-/

namespace ChangePilot

/-! ## What the graph gives -/

theorem requireKey_eq_ok_iff {α : Type} {key : String} {found : Option α} {value : α} :
    requireKey key found = .ok value ↔ found = some value := by
  unfold requireKey
  cases found with
  | none => simp only [reduceCtorEq]
  | some other => simp only [Except.ok.injEq, Option.some.injEq]

section

variable {nodes : PlanningNodes} {γ : Type} {model : PlanningModel γ}
  {retrieve : String → ℤ → Except PlanningError RetrievalResult} {start : PlanningState}

/-- However far a run has come, a plan that is ready is sealed. -/
structure SoundState (nodes : PlanningNodes)
    (retrieve : String → ℤ → Except PlanningError RetrievalResult) (start state : PlanningState) :
    Prop where
  sessionId : state.sessionId = start.sessionId
  planVersion : state.planVersion = start.planVersion
  retrieval : ∀ retrieval, state.retrieval = some retrieval →
    ∃ query topK, retrieve query topK = .ok retrieval
  ready : ∀ sessionId plan evidence, state.result = some (.planReady sessionId plan evidence) →
    ∃ retrieval query topK, retrieve query topK = .ok retrieval ∧
      SealedPlan nodes start retrieval plan

theorem SoundState.refl (hretrieval : start.retrieval = none) (hresult : start.result = none) :
    SoundState nodes retrieve start start where
  sessionId := rfl
  planVersion := rfl
  retrieval retrieval h := by
    rw [hretrieval] at h
    cases h
  ready sessionId plan evidence h := by
    rw [hresult] at h
    cases h

theorem SoundState.checkRequiredContext {state : PlanningState}
    (h : SoundState nodes retrieve start state) :
    SoundState nodes retrieve start (ChangePilot.checkRequiredContext state) := by
  unfold ChangePilot.checkRequiredContext
  split
  · exact h
  · exact { h with ready := fun _ _ _ hready => by cases hready }

theorem SoundState.retrieveKnowledge {state after : PlanningState}
    (h : SoundState nodes retrieve start state)
    (hafter : nodes.retrieveKnowledge retrieve state = .ok after) :
    SoundState nodes retrieve start after := by
  obtain ⟨retrieval, hretrieve, hafter⟩ := Except.bind_eq_ok_iff.mp hafter
  obtain rfl := Except.ok.inj hafter
  refine ⟨h.sessionId, h.planVersion, fun other hother => ?_, fun sessionId plan evidence hready => ?_⟩
  · obtain rfl := Option.some.inj hother
    exact ⟨_, _, hretrieve⟩
  · rw [withRetrieval] at hready
    dsimp only at hready
    split at hready
    · exact h.ready sessionId plan evidence hready
    · cases hready

theorem SoundState.callModel {run after : PlanningRun γ} {repair : Bool}
    (h : SoundState nodes retrieve start run.state)
    (hafter : ChangePilot.callModel nodes model repair run = .ok after) :
    SoundState nodes retrieve start after.state := by
  unfold ChangePilot.callModel at hafter
  obtain ⟨request, _, hafter⟩ := Except.bind_eq_ok_iff.mp hafter
  obtain ⟨state, hstate, hafter⟩ := Except.bind_eq_ok_iff.mp hafter
  obtain rfl := Except.ok.inj hafter
  cases hended : (model.generate run.model request).1 with
  | response payload =>
      rw [hended] at hstate
      obtain rfl := Except.ok.inj hstate
      exact ⟨h.sessionId, h.planVersion, h.retrieval, h.ready⟩
  | budgetExceeded =>
      rw [hended] at hstate
      obtain rfl := Except.ok.inj hstate
      exact { h with ready := fun _ _ _ hready => by cases hready }
  | gatewayError message =>
      rw [hended] at hstate
      obtain rfl := Except.ok.inj hstate
      exact { h with ready := fun _ _ _ hready => by cases hready }
  | raised error =>
      rw [hended] at hstate
      cases hstate

theorem SoundState.withReport {state : PlanningState} (h : SoundState nodes retrieve start state)
    {retrieval : RetrievalResult} {written : ChangePlan} {report : ValidationReport}
    (hretrieval : state.retrieval = some retrieval)
    (hreport : nodes.validator.validate (nodes.sealPlan state retrieval written)
      retrieval.evidence = .ok report) :
    SoundState nodes retrieve start (PlanningNodes.withReport state retrieval report) := by
  unfold PlanningNodes.withReport
  split
  case h_1 plan hvalid hplan =>
    refine { h with ready := fun sessionId ready evidence hready => ?_ }
    obtain ⟨rfl, rfl, rfl⟩ := PlanningResult.planReady.inj (Option.some.inj hready)
    obtain ⟨query, topK, hretrieve⟩ := h.retrieval retrieval hretrieval
    exact ⟨retrieval, query, topK, hretrieve,
      sealedPlan_of_report h.sessionId h.planVersion hreport hvalid hplan⟩
  case h_2 => exact { h with ready := fun _ _ _ hready => by cases hready }

theorem SoundState.validatePayload {state after : PlanningState}
    (h : SoundState nodes retrieve start state)
    (hafter : nodes.validatePayload state = .ok after) : SoundState nodes retrieve start after := by
  unfold PlanningNodes.validatePayload at hafter
  obtain ⟨payload, _, hafter⟩ := Except.bind_eq_ok_iff.mp hafter
  obtain ⟨retrieval, hretrieval, hafter⟩ := Except.bind_eq_ok_iff.mp hafter
  have hsome := requireKey_eq_ok_iff.mp hretrieval
  cases hparse : nodes.parsePlan payload with
  | error errors =>
      rw [hparse] at hafter
      dsimp only at hafter
      split at hafter
      · obtain rfl := Except.ok.inj hafter
        exact ⟨h.sessionId, h.planVersion, h.retrieval, h.ready⟩
      · obtain rfl := Except.ok.inj hafter
        exact { h with ready := fun _ _ _ hready => by cases hready }
  | ok written =>
      rw [hparse] at hafter
      dsimp only at hafter
      split at hafter
      · cases hafter
      case h_2 report hreport =>
        obtain rfl := Except.ok.inj hafter
        exact h.withReport hsome hreport

theorem SoundState.runNode {node : PlanningNode} {run after : PlanningRun γ}
    (h : SoundState nodes retrieve start run.state)
    (hafter : ChangePilot.runNode nodes model retrieve node run = .ok after) :
    SoundState nodes retrieve start after.state := by
  unfold ChangePilot.runNode at hafter
  cases node with
  | normalizeRequest =>
      obtain rfl := Except.ok.inj hafter
      exact ⟨h.sessionId, h.planVersion, h.retrieval, h.ready⟩
  | checkRequiredContext =>
      obtain rfl := Except.ok.inj hafter
      exact h.checkRequiredContext
  | retrieveKnowledge =>
      obtain ⟨state, hstate, hafter⟩ := Except.bind_eq_ok_iff.mp hafter
      obtain rfl := Except.ok.inj hafter
      exact h.retrieveKnowledge hstate
  | generatePlan => exact h.callModel hafter
  | repairPlan => exact h.callModel hafter
  | validatePlan =>
      obtain ⟨state, hstate, hafter⟩ := Except.bind_eq_ok_iff.mp hafter
      obtain rfl := Except.ok.inj hafter
      exact h.validatePayload hstate
  | validateRepairedPlan =>
      obtain ⟨state, hstate, hafter⟩ := Except.bind_eq_ok_iff.mp hafter
      obtain rfl := Except.ok.inj hafter
      exact h.validatePayload hstate

theorem SoundState.runGraph {node : PlanningNode} {run final : PlanningRun γ}
    (h : SoundState nodes retrieve start run.state) (limit : ℕ)
    (hfinal : ChangePilot.runGraph nodes model retrieve limit node run = .ok final) :
    SoundState nodes retrieve start final.state := by
  induction limit generalizing node run with
  | zero => cases hfinal
  | succ limit ih =>
      obtain ⟨after, hafter, hfinal⟩ := Except.bind_eq_ok_iff.mp hfinal
      split at hfinal
      · obtain rfl := Except.ok.inj hfinal
        exact h.runNode hafter
      · exact ih (h.runNode hafter) hfinal

end

/-- The plan is one of the session, of this version and of this knowledge. -/
structure ChangePlan.PlannedFor {ε σ ρ : Type} (service : PlanningService ε σ ρ)
    (sessionId : String) (knowledge : σ) (version : ℕ) (plan : ChangePlan) : Prop where
  planId : plan.planId = sessionPlanId sessionId
  version : plan.version = version
  snapshot : ∃ snapshot, service.knowledge.snapshot service.runtime knowledge = .ok snapshot ∧
    plan.knowledgeSnapshotDigest = snapshot.digest

section

variable {ε σ ρ γ : Type} {service : PlanningService ε σ ρ} {inputs : PlanningInputs γ}

theorem plannedFor_of_planningResult {knowledge : σ} {sessionId : String}
    {request : ChangeRequest} {version : ℕ+} {ready : String} {plan : ChangePlan}
    {evidence : List RetrievedEvidence}
    (h : service.planningResult inputs knowledge sessionId request version =
      .ok (.planReady ready plan evidence)) :
    plan.PlannedFor service sessionId knowledge version := by
  unfold PlanningService.planningResult at h
  obtain ⟨run, hrun, hresult⟩ := Except.bind_eq_ok_iff.mp h
  have hsound := SoundState.runGraph (.refl rfl rfl) 25 hrun
  obtain ⟨retrieval, query, topK, hretrieve, hsealed⟩ :=
    hsound.ready _ _ _ (requireKey_eq_ok_iff.mp hresult)
  obtain ⟨_, _, hsnapshot, _⟩ := HybridRetriever.exists_of_retrieve hretrieve
  exact ⟨hsealed.planId, hsealed.version, retrieval.snapshot, hsnapshot, hsealed.snapshot⟩

/-! ## Calls of the repository -/

namespace PlanningService

variable {α : Type} {w : PlanningWorld σ ρ} {R : PlanningError → PlanningWorld σ ρ → Prop}

theorem ends_ask {call : RepositoryCall} {read : ρ → Except PlanningError α}
    {Q : α → PlanningWorld σ ρ → Prop}
    (hok : ∀ a, inputs.raises call = none → read w.repository = .ok a → Q a w)
    (herror : ∀ e, (inputs.raises call = none → read w.repository = .error e) → R e w) :
    (ask inputs call read : Action σ ρ α).Ends Q R w := by
  refine Effect.ends_read.mpr ⟨fun a h => ?_, fun e h => ?_⟩
  · split at h
    · cases h
    case h_2 hraises => exact hok a hraises h
  · split at h
    case h_1 hraises =>
      refine herror e fun hnone => ?_
      rw [hnone] at hraises
      cases hraises
    case h_2 => exact herror e fun _ => h

theorem ends_tell {call : RepositoryCall} {write : ρ → Except PlanningError ρ}
    {Q : Unit → PlanningWorld σ ρ → Prop}
    (hok : ∀ next, inputs.raises call = none → write w.repository = .ok next →
      Q () { w with repository := next })
    (herror : ∀ e, (inputs.raises call = none → write w.repository = .error e) → R e w) :
    (tell inputs call write : Action σ ρ Unit).Ends Q R w := by
  refine Effect.ends_change.mpr ⟨fun next h => ?_, fun e h => ?_⟩
  · split at h
    · cases h
    case h_2 hraises =>
      obtain ⟨repository, hwrite, rfl⟩ := Except.map_eq_ok_iff.mp h
      exact hok repository hraises hwrite
  · split at h
    case h_1 hraises =>
      refine herror e fun hnone => ?_
      rw [hnone] at hraises
      cases hraises
    case h_2 =>
      refine herror e fun _ => ?_
      cases hwrite : write w.repository with
      | ok next =>
          rw [hwrite] at h
          cases h
      | error error =>
          rw [hwrite] at h
          rw [Except.error.inj h]

theorem ends_plan {sessionId : String} {request : ChangeRequest} {version : ℕ+}
    {Q : PlanningResult → PlanningWorld σ ρ → Prop}
    (hok : ∀ result,
      service.planningResult inputs w.knowledge sessionId request version = .ok result →
        Q result { w with planned := w.planned ++ [⟨sessionId, request, w.knowledge, result⟩] })
    (herror : ∀ e,
      service.planningResult inputs w.knowledge sessionId request version = .error e → R e w) :
    (service.plan inputs sessionId request version).Ends Q R w := by
  refine Effect.ends_bind.mpr (Effect.ends_read.mpr ⟨fun result h => ?_, herror⟩)
  refine Effect.ends_bind.mpr (Effect.ends_change.mpr ⟨fun next hnext => ?_, fun e he => ?_⟩)
  · obtain rfl := Except.ok.inj hnext
    exact (Effect.ends_pure _).mpr (hok result h)
  · cases he

end PlanningService

end

/-! ## What a run of the service leaves -/

/-- The session after the result of a run was saved; a plan that is ready may be saved with
it. -/
structure PlanningSession.Attempted (session after : PlanningSession) (request : ChangeRequest)
    (result : PlanningResult) : Prop where
  request : after.request = request
  results : after.results = session.results ++ [result]
  plans : after.plans = session.plans ∨ ∃ ready plan evidence,
    result = .planReady ready plan evidence ∧ after.plans = session.plans ++ [plan]

/-- The run was one for the session, and on this request. -/
structure PlanningRecord.RunOf {ε σ ρ : Type} (service : PlanningService ε σ ρ)
    (record : PlanningRecord σ) (sessionId : String) (request : ChangeRequest) (version : ℕ) :
    Prop where
  of_session : record.sessionId = sessionId
  of_request : record.request = request
  ready : ∀ ready plan evidence, record.result = .planReady ready plan evidence →
    plan.PlannedFor service sessionId record.knowledge version

section

variable {ε σ ρ γ : Type} (service : PlanningService ε σ ρ) (inputs : PlanningInputs γ)
  (holds : ρ → PlanningSessions → Prop)

/-- Nothing keeps a run from having its result saved. -/
structure PlanningService.Saves (w : PlanningWorld σ ρ) (sessionId : String)
    (request : ChangeRequest) : Prop where
  attemptNumber : inputs.raises .nextAttemptNumber = none
  planVersion : inputs.raises .nextPlanVersion = none
  result : ∀ version, service.repository.nextPlanVersion w.repository sessionId = .ok version →
    ∃ result, service.planningResult inputs w.knowledge sessionId request version = .ok result
  saveAttempt : inputs.raises .saveAttempt = none

/-- What a run has done: it has saved nothing, which something kept it from, or its result. -/
structure Ran (w : PlanningWorld σ ρ) (sessions : PlanningSessions) (sessionId : String)
    (request : ChangeRequest) (after : PlanningWorld σ ρ) (sessions' : PlanningSessions) :
    Prop where
  knowledge : after.knowledge = w.knowledge
  grown : ∀ record ∈ w.planned, record ∈ after.planned
  holds : holds after.repository sessions'
  outcome : sessions' = sessions ∧ ¬ service.Saves inputs w sessionId request ∨
    ∃ session next record, sessions sessionId = some session ∧
      sessions' = Function.update sessions sessionId (some next) ∧ record ∈ after.planned ∧
      record.RunOf service sessionId request (session.plans.length + 1) ∧
      session.Attempted next request record.result

end

section

variable {ε σ ρ γ : Type} {service : PlanningService ε σ ρ} {inputs : PlanningInputs γ}
  {reads : PlanningReads} {holds : ρ → PlanningSessions → Prop}
  {w : PlanningWorld σ ρ} {sessions : PlanningSessions} {sessionId : String}

/-- The plan of a result is saved or it is not. -/
theorem PlanningService.ends_savePlanOf (hrefines : service.repository.Refines reads holds)
    (hholds : holds w.repository sessions) {session : PlanningSession}
    (hsession : sessions sessionId = some session) {result : PlanningResult}
    (hready : ∀ ready plan evidence, result = .planReady ready plan evidence →
      plan.planId = sessionPlanId sessionId ∧ plan.version = session.plans.length + 1) :
    let saved := fun after : PlanningWorld σ ρ => after.knowledge = w.knowledge ∧
      after.planned = w.planned ∧ ∃ next : PlanningSession,
        holds after.repository (Function.update sessions sessionId (some next)) ∧
        next.request = session.request ∧ next.results = session.results ∧
        (next.plans = session.plans ∨ ∃ ready plan evidence,
          result = .planReady ready plan evidence ∧ next.plans = session.plans ++ [plan])
    (service.savePlanOf inputs sessionId result).Ends (fun _ => saved) (fun _ => saved) w := by
  intro saved
  have hsame : saved w := by
    refine ⟨rfl, rfl, session, ?_, rfl, rfl, .inl rfl⟩
    rwa [← hsession, Function.update_eq_self]
  cases result with
  | planReady ready plan evidence =>
      obtain ⟨hid, hversion⟩ := hready ready plan evidence rfl
      show (tell inputs .savePlan (service.repository.savePlan · sessionId plan)).Ends _ _ w
      refine ends_tell (fun next _ hnext => ?_) fun e _ => hsame
      exact ⟨rfl, rfl, _, hrefines.planned hholds hsession hid hversion hnext, rfl, rfl,
        .inr ⟨ready, plan, evidence, rfl, rfl⟩⟩
  | clarificationRequired _ _ => exact (Effect.ends_pure _).mpr hsame
  | planningRejected _ _ => exact (Effect.ends_pure _).mpr hsame
  | budgetExhausted _ _ _ => exact (Effect.ends_pure _).mpr hsame

/-- What a run for a session does, whether or not it fails. -/
theorem PlanningService.ends_run (hrefines : service.repository.Refines reads holds)
    (hholds : holds w.repository sessions) {session : PlanningSession}
    (hsession : sessions sessionId = some session) (request : ChangeRequest) :
    let ran := fun after => ∃ sessions',
      Ran service inputs holds w sessions sessionId request after sessions'
    (service.run inputs sessionId request).Ends (fun _ => ran) (fun _ => ran) w := by
  intro ran
  have hstayed : ¬ service.Saves inputs w sessionId request → ran w := fun h =>
    ⟨sessions, rfl, fun _ hrecord => hrecord, hholds, .inl ⟨rfl, h⟩⟩
  refine Effect.ends_bind.mpr (ends_ask (fun attemptNo _ hattempt => ?_) fun e he => ?_)
  case refine_2 =>
    refine hstayed fun h => ?_
    cases (hrefines.attemptNumber hholds hsession).symm.trans (he h.attemptNumber)
  obtain rfl := Except.ok.inj ((hrefines.attemptNumber hholds hsession).symm.trans hattempt)
  refine Effect.ends_bind.mpr (ends_ask (fun version _ hversion => ?_) fun e he => ?_)
  case refine_2 =>
    refine hstayed fun h => ?_
    have hanswers := (hrefines.planVersion hholds).mpr ⟨session, hsession, rfl⟩
    cases hanswers.symm.trans (he h.planVersion)
  obtain ⟨found, hfound, rfl⟩ := (hrefines.planVersion hholds).mp hversion
  obtain rfl := Option.some.inj (hsession.symm.trans hfound)
  refine Effect.ends_bind.mpr (ends_plan (fun result hresult => ?_) fun e he => ?_)
  case refine_2 =>
    refine hstayed fun h => ?_
    obtain ⟨result, hresult⟩ := h.result _ hversion
    cases hresult.symm.trans he
  have hrun : (⟨sessionId, request, w.knowledge, result⟩ : PlanningRecord σ).RunOf service
      sessionId request (session.plans.length + 1) := by
    refine ⟨rfl, rfl, fun ready plan evidence hready => ?_⟩
    exact plannedFor_of_planningResult (hresult.trans (congrArg Except.ok hready))
  obtain ⟨saved, hsaved, hafter⟩ := hrefines.attempted hholds hsession request result
  refine Effect.ends_bind.mpr (ends_tell (fun next _ hnext => ?_) fun e he => ?_)
  case refine_2 =>
    -- the run is noted, but nothing of it is saved
    refine ⟨sessions, rfl, fun _ => List.mem_append_left _, hholds, .inl ⟨rfl, fun h => ?_⟩⟩
    cases hsaved.symm.trans (he h.saveAttempt)
  obtain rfl := Except.ok.inj (hsaved.symm.trans hnext)
  refine Effect.ends_bind.mpr (Effect.Ends.mono (ends_savePlanOf hrefines hafter
    (Function.update_self ..) fun ready plan evidence hready => ?_) ?_ ?_)
  · have hplanned := hrun.ready ready plan evidence hready
    exact ⟨hplanned.planId, hplanned.version⟩
  all_goals
    intro _ after hended
    obtain ⟨hknowledge, hplanned, next, hnext, hrequest, hresults, hplans⟩ := hended
    rw [Function.update_idem] at hnext
  case refine_2 =>
    refine (Effect.ends_pure _).mpr ⟨_, hknowledge, fun record hrecord => ?_, hnext,
      .inr ⟨session, next, _, hsession, rfl, ?_, hrun, hrequest, hresults, hplans⟩⟩
    · rw [hplanned]
      exact List.mem_append_left _ hrecord
    · rw [hplanned]
      exact List.mem_append_right _ List.mem_cons_self
  case refine_3 =>
    refine ⟨_, hknowledge, fun record hrecord => ?_, hnext,
      .inr ⟨session, next, _, hsession, rfl, ?_, hrun, hrequest, hresults, hplans⟩⟩
    · rw [hplanned]
      exact List.mem_append_left _ hrecord
    · rw [hplanned]
      exact List.mem_append_right _ List.mem_cons_self

end

/-! ## What holds of the sessions -/

/-- The latest result is a ready plan of the latest version, as it is read. -/
def PlanningSession.Submittable (reads : PlanningReads) (session : PlanningSession) : Prop :=
  ∃ saved plan result ready latest evidence, session.plans.getLast? = some saved ∧
    reads.plan saved = .ok plan ∧ session.results.getLast? = some result ∧
    reads.result result = .ok (.planReady ready latest evidence) ∧ plan.version = latest.version

section

variable {ε σ ρ : Type} (service : PlanningService ε σ ρ) (reads : PlanningReads)
  (holds : ρ → PlanningSessions → Prop) (w : PlanningWorld σ ρ) (sessions : PlanningSessions)

/-- What holds whatever has failed. -/
structure KeptSessions : Prop where
  holds : holds w.repository sessions
  versions : ∀ {sessionId session plan}, sessions sessionId = some session →
    session.plans.getLast? = some plan → plan.version = session.plans.length
  ready : ∀ {sessionId session ready plan evidence}, sessions sessionId = some session →
    session.results.getLast? = some (.planReady ready plan evidence) →
      (plan.version = session.plans.length + 1 ∨ session.plans.getLast? = some plan) ∧
      ∃ record ∈ w.planned, record.sessionId = sessionId ∧
        record.result = .planReady ready plan evidence ∧
        plan.PlannedFor service sessionId record.knowledge plan.version

/-- If the plan of the session can be prepared, it is the result of a run on the request of
the session. -/
def CurrentPlan (sessionId : String) : Prop :=
  ∀ session, sessions sessionId = some session → session.Submittable reads →
    ∃ record ∈ w.planned, record.sessionId = sessionId ∧ record.request = session.request ∧
      session.results.getLast? = some record.result

/-- The latest plan can be prepared, for all that the service itself checks. -/
def PlanningService.CanPrepare (sessionId : String) : Prop :=
  ∃ plan ready latest evidence, service.repository.getLatestPlan w.repository sessionId = .ok plan ∧
    service.repository.getLatestResult w.repository sessionId =
      .ok (.planReady ready latest evidence) ∧ plan.version = latest.version

/-- The sessions go on: what holds of them is kept, and their plans stay current if
`complete` is true. -/
structure Continued (complete : Prop) (after : PlanningWorld σ ρ) : Prop where
  knowledge : after.knowledge = w.knowledge
  sessions : ∃ sessions', KeptSessions service holds after sessions' ∧
    (complete → (∀ sessionId, CurrentPlan reads w sessions sessionId) →
      ∀ sessionId, CurrentPlan reads after sessions' sessionId)

end

/-- An answer that changes the request under a plan that can be prepared has the result of
its run saved. -/
def PlanningService.CarriesThrough {ε σ ρ γ : Type} (service : PlanningService ε σ ρ)
    (w : PlanningWorld σ ρ) (call : PlanningInputs γ × PlanningOperation ε) : Prop :=
  ∀ sessionId answers current updated, call.2 = .answer sessionId answers →
    call.1.raises .getRequest = none → call.1.raises .updateRequest = none →
    service.repository.getRequest w.repository sessionId = .ok current →
    current.answered service.runtime answers = .ok updated → updated ≠ current →
    service.CanPrepare w sessionId → service.Saves call.1 w sessionId updated

section

variable {ε σ ρ γ : Type} {service : PlanningService ε σ ρ} {inputs : PlanningInputs γ}
  {reads : PlanningReads} {holds : ρ → PlanningSessions → Prop}
  {w after : PlanningWorld σ ρ} {sessions sessions' : PlanningSessions} {sessionId : String}
  {request : ChangeRequest}

/-- A session after an update is the one that was put there, or one of before. -/
theorem PlanningSessions.update_cases {next other : PlanningSession} {id : String}
    (h : Function.update sessions sessionId (some next) id = some other) :
    id = sessionId ∧ other = next ∨ id ≠ sessionId ∧ sessions id = some other := by
  by_cases hsame : id = sessionId
  · subst hsame
    rw [Function.update_self] at h
    exact .inl ⟨rfl, (Option.some.inj h).symm⟩
  · rw [Function.update_of_ne hsame] at h
    exact .inr ⟨hsame, h⟩

/-- A session whose result was saved keeps its versions. -/
theorem PlanningSession.Attempted.versions {session next : PlanningSession}
    {record : PlanningRecord σ} (h : session.Attempted next request record.result)
    (hrun : record.RunOf service sessionId request (session.plans.length + 1))
    (hsession : ∀ plan, session.plans.getLast? = some plan → plan.version = session.plans.length)
    {plan : ChangePlan} (hlast : next.plans.getLast? = some plan) :
    plan.version = next.plans.length := by
  rcases h.plans with hsame | ⟨ready, saved, evidence, hready, hplans⟩
  · rw [hsame] at hlast ⊢
    exact hsession plan hlast
  · rw [hplans, List.getLast?_concat] at hlast
    obtain rfl := Option.some.inj hlast
    rw [(hrun.ready _ _ _ hready).version, hplans, List.length_append, List.length_singleton]

/-- A ready result that was saved is the last plan or the next one. -/
theorem PlanningSession.Attempted.ready {session next : PlanningSession}
    {record : PlanningRecord σ} (h : session.Attempted next request record.result)
    (hrun : record.RunOf service sessionId request (session.plans.length + 1))
    {ready : String} {plan : ChangePlan} {evidence : List RetrievedEvidence}
    (hlast : next.results.getLast? = some (.planReady ready plan evidence)) :
    (plan.version = next.plans.length + 1 ∨ next.plans.getLast? = some plan) ∧
      record.result = .planReady ready plan evidence := by
  rw [h.results, List.getLast?_concat] at hlast
  have hresult := Option.some.inj hlast
  refine ⟨?_, hresult⟩
  rcases h.plans with hsame | ⟨_, saved, _, hready, hplans⟩
  · left
    rw [hsame]
    exact (hrun.ready _ _ _ hresult).version
  · right
    obtain ⟨rfl, rfl, rfl⟩ := PlanningResult.planReady.inj (hresult.symm.trans hready)
    rw [hplans, List.getLast?_concat]

theorem KeptSessions.ran (h : KeptSessions service holds w sessions)
    (hran : Ran service inputs holds w sessions sessionId request after sessions') :
    KeptSessions service holds after sessions' := by
  rcases hran.outcome with ⟨rfl, _⟩ | ⟨session, next, record, hsession, rfl, hmem, hrun, hnext⟩
  · refine ⟨hran.holds, h.versions, fun hsession hlast => ?_⟩
    obtain ⟨hplan, record, hrecord, hof⟩ := h.ready hsession hlast
    exact ⟨hplan, record, hran.grown record hrecord, hof⟩
  · refine ⟨hran.holds, fun hother hlast => ?_, fun hother hlast => ?_⟩
    · rcases PlanningSessions.update_cases hother with ⟨rfl, rfl⟩ | ⟨_, hold⟩
      · exact hnext.versions hrun (fun _ => h.versions hsession) hlast
      · exact h.versions hold hlast
    · rcases PlanningSessions.update_cases hother with ⟨rfl, rfl⟩ | ⟨_, hold⟩
      · obtain ⟨hplan, hresult⟩ := hnext.ready hrun hlast
        have hplanned := hrun.ready _ _ _ hresult
        refine ⟨hplan, record, hmem, hrun.of_session, hresult, ?_⟩
        rw [hplanned.version]
        exact hplanned
      · obtain ⟨hplan, old, hrecord, hof⟩ := h.ready hold hlast
        exact ⟨hplan, old, hran.grown old hrecord, hof⟩

/-- Another request, or a new session, is no other plan or result. -/
theorem KeptSessions.update (h : KeptSessions service holds w sessions) {repository : ρ}
    {next : PlanningSession}
    (hholds : holds repository (Function.update sessions sessionId (some next)))
    (hnext : next.results = [] ∧ next.plans = [] ∨ ∃ session, sessions sessionId = some session ∧
      next.results = session.results ∧ next.plans = session.plans) :
    KeptSessions service holds { w with repository := repository }
      (Function.update sessions sessionId (some next)) := by
  refine ⟨hholds, fun hother hlast => ?_, fun hother hlast => ?_⟩
  · rcases PlanningSessions.update_cases hother with ⟨rfl, rfl⟩ | ⟨_, hold⟩
    · rcases hnext with ⟨_, hplans⟩ | ⟨session, hsession, _, hplans⟩
      · rw [hplans] at hlast
        cases hlast
      · rw [hplans] at hlast ⊢
        exact h.versions hsession hlast
    · exact h.versions hold hlast
  · rcases PlanningSessions.update_cases hother with ⟨rfl, rfl⟩ | ⟨_, hold⟩
    · rcases hnext with ⟨hresults, _⟩ | ⟨session, hsession, hresults, hplans⟩
      · rw [hresults] at hlast
        cases hlast
      · rw [hresults] at hlast
        rw [hplans]
        exact h.ready hsession hlast
    · exact h.ready hold hlast

/-- A session that can be prepared is ready with its last plan. -/
theorem KeptSessions.last_of_submittable (h : KeptSessions service holds w sessions)
    (hkeep : reads.Keep) {session : PlanningSession} (hsession : sessions sessionId = some session)
    {saved plan latest : ChangePlan} {result : PlanningResult} {ready : String}
    {evidence : List RetrievedEvidence} (hplan : session.plans.getLast? = some saved)
    (hread : reads.plan saved = .ok plan) (hresult : session.results.getLast? = some result)
    (hready : reads.result result = .ok (.planReady ready latest evidence))
    (hversion : plan.version = latest.version) : ∃ ready' evidence',
      result = .planReady ready' saved evidence' ∧ plan.identity = saved.identity ∧
      latest.identity = saved.identity := by
  obtain ⟨ready', planned, evidence', rfl, hidentity⟩ := hkeep.ready hready
  have hplanned : planned.version = session.plans.length := by
    calc planned.version = latest.version := (congrArg (fun key => key.2.1) hidentity).symm
      _ = plan.version := hversion.symm
      _ = saved.version := congrArg (fun key => key.2.1) (hkeep.plan hread)
      _ = session.plans.length := h.versions hsession hplan
  rcases (h.ready hsession hresult).1 with hnext | hlast
  · omega
  · obtain rfl := Option.some.inj (hplan.symm.trans hlast)
    exact ⟨ready', evidence', rfl, hkeep.plan hread, hidentity⟩

theorem KeptSessions.continued (h : KeptSessions service holds w sessions) (complete : Prop) :
    Continued service reads holds w sessions complete w where
  knowledge := rfl
  sessions := ⟨sessions, h, fun _ hcurrent => hcurrent⟩

/-- After a run the plans are current if they were, but for that of a session whose result
was sure to be saved. -/
theorem Ran.currentPlan
    (hran : Ran service inputs holds w sessions sessionId request after sessions')
    (hcurrent : ∀ id, (id = sessionId → ¬ service.Saves inputs w sessionId request) →
      CurrentPlan reads w sessions id) (id : String) : CurrentPlan reads after sessions' id := by
  intro other hother hsubmittable
  rcases hran.outcome with ⟨rfl, hnot⟩ | ⟨session, next, record, hsession, rfl, hmem, hrun, hnext⟩
  · obtain ⟨record, hrecord, hof⟩ := hcurrent id (fun _ => hnot) other hother hsubmittable
    exact ⟨record, hran.grown record hrecord, hof⟩
  · rcases PlanningSessions.update_cases hother with ⟨rfl, rfl⟩ | ⟨hne, hold⟩
    · refine ⟨record, hmem, hrun.of_session, hrun.of_request.trans hnext.request.symm, ?_⟩
      rw [hnext.results, List.getLast?_concat]
    · obtain ⟨old, hrecord, hof⟩ := hcurrent id (fun h => absurd h hne) other hold hsubmittable
      exact ⟨old, hran.grown old hrecord, hof⟩

namespace PlanningService

variable (hrefines : service.repository.Refines reads holds)
include hrefines

theorem canPrepare_iff (hholds : holds w.repository sessions) : service.CanPrepare w sessionId ↔
    ∃ session, sessions sessionId = some session ∧ session.Submittable reads := by
  constructor
  · intro ⟨plan, ready, latest, evidence, hplan, hresult, hversion⟩
    obtain ⟨session, saved, hsession, hlast, hread⟩ := (hrefines.latestPlan hholds).mp hplan
    obtain ⟨same, result, hsame, hresult, hready⟩ := (hrefines.latestResult hholds).mp hresult
    obtain rfl := Option.some.inj (hsession.symm.trans hsame)
    exact ⟨session, hsession, saved, plan, result, ready, latest, evidence, hlast, hread, hresult,
      hready, hversion⟩
  · intro ⟨session, hsession, saved, plan, result, ready, latest, evidence, hlast, hread, hresult,
      hready, hversion⟩
    exact ⟨plan, ready, latest, evidence,
      (hrefines.latestPlan hholds).mpr ⟨session, saved, hsession, hlast, hread⟩,
      (hrefines.latestResult hholds).mpr ⟨session, result, hsession, hresult, hready⟩, hversion⟩

/-- What keeps a run from being saved is not the request that is stored. -/
theorem Saves.of_update {session next : PlanningSession}
    (h : service.Saves inputs w sessionId request) (hholds : holds w.repository sessions)
    (hsession : sessions sessionId = some session) {repository : ρ}
    (hnext : holds repository (Function.update sessions sessionId (some next)))
    (hplans : next.plans = session.plans) :
    service.Saves inputs { w with repository := repository } sessionId request where
  attemptNumber := h.attemptNumber
  planVersion := h.planVersion
  saveAttempt := h.saveAttempt
  result version hversion := by
    obtain ⟨found, hfound, rfl⟩ := (hrefines.planVersion hnext).mp hversion
    rw [Function.update_self] at hfound
    obtain rfl := Option.some.inj hfound
    refine h.result _ ((hrefines.planVersion hholds).mpr ⟨session, hsession, ?_⟩)
    rw [hplans]

theorem ends_start (h : KeptSessions service holds w sessions) (request : ChangeRequest)
    (given : Option String) :
    let continued := Continued service reads holds w sessions True
    (service.start inputs request given).Ends (fun _ => continued) (fun _ => continued) w := by
  intro continued
  refine Effect.ends_bind.mpr (ends_tell (fun next _ hnext => ?_) fun e _ => h.continued True)
  obtain ⟨hnew, hholds⟩ := hrefines.created h.holds hnext
  have hkept := h.update hholds (.inl ⟨rfl, rfl⟩)
  refine (ends_run hrefines hkept.holds (Function.update_self ..) request).mono_state ?_
  intro after ⟨sessions', hran⟩
  refine ⟨hran.knowledge, sessions', hkept.ran hran, fun _ hcurrent => ?_⟩
  refine hran.currentPlan fun id _ session hsession hsubmittable => ?_
  rcases PlanningSessions.update_cases hsession with ⟨_, rfl⟩ | ⟨_, hold⟩
  · -- a new session has no plan
    obtain ⟨saved, _, _, _, _, _, hlast, _⟩ := hsubmittable
    cases hlast
  · exact hcurrent id session hold hsubmittable

theorem ends_answer (h : KeptSessions service holds w sessions) (sessionId : String)
    (answers : List (String × Value)) :
    let continued := Continued service reads holds w sessions
      (service.CarriesThrough w (inputs, .answer sessionId answers))
    (service.answer inputs sessionId answers).Ends (fun _ => continued) (fun _ => continued) w := by
  intro continued
  have hsame : continued w := h.continued _
  refine Effect.ends_bind.mpr (ends_ask (fun current hget hcurrent => ?_) fun e _ => hsame)
  refine Effect.ends_bind.mpr (Effect.ends_read.mpr ⟨fun updated hupdated => ?_, fun e _ => hsame⟩)
  refine Effect.ends_bind.mpr (ends_tell (fun next hput hnext => ?_) fun e _ => hsame)
  obtain ⟨session, hsession, rfl⟩ := (hrefines.request h.holds).mp hcurrent
  obtain ⟨found, hfound, hholds⟩ := hrefines.updated h.holds hnext
  obtain rfl := Option.some.inj (hsession.symm.trans hfound)
  have hkept := h.update hholds (.inr ⟨session, hsession, rfl, rfl⟩)
  refine (ends_run hrefines hkept.holds (Function.update_self ..) updated).mono_state ?_
  intro after ⟨sessions', hran⟩
  refine ⟨hran.knowledge, sessions', hkept.ran hran, fun hthrough hplans => ?_⟩
  refine hran.currentPlan fun id hnot other hother hsubmittable => ?_
  rcases PlanningSessions.update_cases hother with ⟨rfl, rfl⟩ | ⟨_, hold⟩
  · by_cases hchanged : updated = session.request
    · subst hchanged
      exact hplans id session hsession hsubmittable
    · -- the request has changed under a plan that can be prepared, so the run is saved
      have hcan : service.CanPrepare w id :=
        (canPrepare_iff hrefines h.holds).mpr ⟨session, hsession, hsubmittable⟩
      have hsaves := hthrough id answers _ updated rfl hget hput hcurrent hupdated hchanged hcan
      exact absurd (Saves.of_update hrefines hsaves h.holds hsession hholds rfl) (hnot rfl)
  · exact hplans id other hold hsubmittable

/-- What is known of a plan when it is prepared. -/
structure Prepares (service : PlanningService ε σ ρ) (w : PlanningWorld σ ρ) (sessionId : String)
    (plan latest : ChangePlan) (evidence : List RetrievedEvidence) (prepared : PreparedWorkflow) :
    Prop where
  read_plan : service.repository.getLatestPlan w.repository sessionId = .ok plan
  read_result : ∃ ready, service.repository.getLatestResult w.repository sessionId =
    .ok (.planReady ready latest evidence)
  same_version : plan.version = latest.version
  same_snapshot : ∃ snapshot,
    service.knowledge.snapshot service.runtime w.knowledge = .ok snapshot ∧
      plan.knowledgeSnapshotDigest = snapshot.digest
  mapped : service.mapper.prepare plan evidence = .ok prepared

omit hrefines in
theorem requirePlan_eq_ok_iff {valid : Prop} [Decidable valid] {message : String} :
    requirePlan valid message = .ok () ↔ valid := by
  unfold requirePlan
  split
  case isTrue hvalid => exact iff_of_true rfl hvalid
  case isFalse hvalid => simp only [reduceCtorEq, hvalid]

omit hrefines in
theorem requireReady_eq_ok_iff {result : PlanningResult} {plan : ChangePlan}
    {evidence : List RetrievedEvidence} : requireReady result = .ok (plan, evidence) ↔
      ∃ ready, result = .planReady ready plan evidence := by
  cases result with
  | planReady ready found items =>
      simp only [requireReady, Except.ok.injEq, Prod.mk.injEq, PlanningResult.planReady.injEq,
        exists_eq_left']
  | clarificationRequired _ _ => simp only [requireReady, reduceCtorEq, exists_false]
  | planningRejected _ _ => simp only [requireReady, reduceCtorEq, exists_false]
  | budgetExhausted _ _ _ => simp only [requireReady, reduceCtorEq, exists_false]

theorem ends_prepareWorkflow (inputs : PlanningInputs γ)
    (h : KeptSessions service holds w sessions) (sessionId : String) :
    let continued := Continued service reads holds w sessions True
    (service.prepareWorkflow inputs sessionId).Ends
      (fun prepared after => (∃ plan latest evidence,
        Prepares service w sessionId plan latest evidence prepared) ∧ continued after)
      (fun _ => continued) w := by
  intro continued
  have hsame : continued w := h.continued True
  refine Effect.ends_bind.mpr (ends_ask (fun plan _ hplan => ?_) fun e _ => hsame)
  refine Effect.ends_bind.mpr (ends_ask (fun result _ hresult => ?_) fun e _ => hsame)
  refine Effect.ends_bind.mpr (Effect.ends_read.mpr ⟨fun found hready => ?_, fun e _ => hsame⟩)
  obtain ⟨latest, evidence⟩ := found
  obtain ⟨ready, rfl⟩ := requireReady_eq_ok_iff.mp hready
  refine Effect.ends_bind.mpr (Effect.ends_read.mpr ⟨fun prepared hprepared => ?_,
    fun e _ => hsame⟩)
  unfold PlanningService.prepared at hprepared
  obtain ⟨_, hversion, hprepared⟩ := Except.bind_eq_ok_iff.mp hprepared
  obtain ⟨snapshot, hsnapshot, hprepared⟩ := Except.bind_eq_ok_iff.mp hprepared
  obtain ⟨_, hdigest, hprepared⟩ := Except.bind_eq_ok_iff.mp hprepared
  refine Effect.ends_bind.mpr (ends_tell (fun next _ hnext => ?_) fun e _ => hsame)
  refine (Effect.ends_pure _).mpr ⟨⟨plan, latest, evidence, hplan, ⟨ready, hresult⟩,
    requirePlan_eq_ok_iff.mp hversion, ⟨snapshot, hsnapshot, requirePlan_eq_ok_iff.mp hdigest⟩,
    hprepared⟩, rfl, sessions, ?_, fun _ hcurrent => hcurrent⟩
  exact ⟨hrefines.bound h.holds hnext, h.versions, h.ready⟩

/-- Any call keeps the sessions. -/
theorem step_continued (h : KeptSessions service holds w sessions)
    (call : PlanningInputs γ × PlanningOperation ε) : ∃ sessions',
      KeptSessions service holds (service.step w call) sessions' ∧
        (service.CarriesThrough w call → (∀ sessionId, CurrentPlan reads w sessions sessionId) →
          ∀ sessionId, CurrentPlan reads (service.step w call) sessions' sessionId) := by
  obtain ⟨inputs, operation⟩ := call
  cases operation with
  | start request given =>
      obtain ⟨sessions', hkept, hcurrent⟩ := (ends_start hrefines h request given).state.sessions
      exact ⟨sessions', hkept, fun _ => hcurrent trivial⟩
  | answer sessionId answers => exact (ends_answer hrefines h sessionId answers).state.sessions
  | prepareWorkflow sessionId =>
      have hended := (ends_prepareWorkflow hrefines inputs h sessionId).mono
        (fun _ _ hafter => hafter.2) fun _ _ hafter => hafter
      obtain ⟨sessions', hkept, hcurrent⟩ := hended.state.sessions
      exact ⟨sessions', hkept, fun _ => hcurrent trivial⟩
  | ingest e document =>
      exact ⟨sessions, ⟨h.holds, h.versions, h.ready⟩, fun _ hcurrent => hcurrent⟩

/-- The plans stay current along calls whose answers are carried through. -/
theorem after_current {calls : List (PlanningInputs γ × PlanningOperation ε)}
    (hcalls : Runs.Along service.step service.CarriesThrough w calls)
    (h : KeptSessions service holds w sessions)
    (hcurrent : ∀ sessionId, CurrentPlan reads w sessions sessionId) :
    ∃ sessions', KeptSessions service holds (service.after w calls) sessions' ∧
      ∀ sessionId, CurrentPlan reads (service.after w calls) sessions' sessionId := by
  refine Runs.Along.run (I := fun w => ∃ sessions, KeptSessions service holds w sessions ∧
    ∀ sessionId, CurrentPlan reads w sessions sessionId) (fun w call hthrough hw => ?_) hcalls
    ⟨sessions, h, hcurrent⟩
  obtain ⟨sessions, hw, hcurrent⟩ := hw
  obtain ⟨sessions', hkept, hnext⟩ := step_continued hrefines hw call
  exact ⟨sessions', hkept, hnext hthrough hcurrent⟩

end PlanningService

end

end ChangePilot
