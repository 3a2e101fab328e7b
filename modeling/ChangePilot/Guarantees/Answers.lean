import ChangePilot.Guarantees.Sessions

/-!
# Prepared plans and the request of the session

An answer stores the changed request before it runs the planning graph, so a run that fails
leaves the old plan under the new request, and nothing that is checked when a plan is
prepared tells them apart.  Where answers are carried through, what is prepared is the
result of a run on the request that is stored.
-/

namespace ChangePilot

/-- The repositories of the source, with how they read and with the empty one. -/
inductive PlanningBackend : {ρ : Type} → PlanningRepository ρ → PlanningReads → ρ → Prop
  | inMemory : PlanningBackend InMemoryPlanningRepository.repository
      InMemoryPlanningRepository.reads {}
  | sqlite (columns : JsonColumns) (h : columns.reads.Keep) :
      PlanningBackend (SQLitePlanningRepository.repository columns) columns.reads {}

theorem PlanningBackend.refines {ρ : Type} {repository : PlanningRepository ρ}
    {reads : PlanningReads} {empty : ρ} (h : PlanningBackend repository reads empty) :
    reads.Keep ∧ ∃ holds, repository.Refines reads holds ∧ holds empty fun _ => none := by
  cases h with
  | inMemory =>
      exact ⟨InMemoryPlanningRepository.reads_keep, _, InMemoryPlanningRepository.refines,
        fun _ => rfl⟩
  | sqlite columns h =>
      exact ⟨h, _, SQLitePlanningRepository.refines columns,
        ⟨fun _ => rfl, fun _ _ => rfl, fun _ _ => rfl, List.forall_mem_nil _⟩⟩

/-- There are no sessions at first. -/
theorem keptSessions_empty {ε σ ρ : Type} {service : PlanningService ε σ ρ}
    {holds : ρ → PlanningSessions → Prop} {empty : ρ} (h : holds empty fun _ => none)
    (knowledge : σ) :
    KeptSessions service holds ⟨empty, knowledge, []⟩ fun _ => none where
  holds := h
  versions hsession := by cases hsession
  ready hsession := by cases hsession

/-- Whatever is prepared is the latest plan, the result of a run on the request that the
session has, as it is read back. -/
def PreparesCurrent {ε σ ρ γ : Type} (service : PlanningService ε σ ρ) (reads : PlanningReads)
    (inputs : PlanningInputs γ) (w : PlanningWorld σ ρ) : Prop :=
  ∀ sessionId prepared after,
    service.prepareWorkflow inputs sessionId w = (.ok prepared, after) →
      ∃ record ∈ w.planned, record.sessionId = sessionId ∧
        service.repository.getRequest w.repository sessionId = .ok record.request ∧
        ∃ ready planned evidence plan latestEvidence,
          record.result = .planReady ready planned evidence ∧ reads.plan planned = .ok plan ∧
          plan.identity = planned.identity ∧
          service.repository.getLatestPlan w.repository sessionId = .ok plan ∧
          service.mapper.prepare plan latestEvidence = .ok prepared

/-- Along calls of any kind whose answers are carried through, what is prepared is the result
of a run on the request that is stored, whatever else fails. -/
theorem prepared_plan_answers_request {ε σ ρ γ : Type} (service : PlanningService ε σ ρ)
    {reads : PlanningReads} {empty : ρ}
    (hbackend : PlanningBackend service.repository reads empty) (knowledge : σ)
    (calls : List (PlanningInputs γ × PlanningOperation ε))
    (hcalls : Runs.Along service.step service.CarriesThrough ⟨empty, knowledge, []⟩ calls)
    (inputs : PlanningInputs γ) :
    PreparesCurrent service reads inputs (service.after ⟨empty, knowledge, []⟩ calls) := by
  obtain ⟨hkeep, holds, hrefines, hempty⟩ := hbackend.refines
  obtain ⟨sessions, hkept, hcurrent⟩ := PlanningService.after_current hrefines hcalls
    (keptSessions_empty hempty knowledge) fun _ _ hsession => by cases hsession
  intro sessionId prepared after hprepare
  obtain ⟨⟨plan, latest, evidence, hprepares⟩, _⟩ :=
    (PlanningService.ends_prepareWorkflow hrefines _ hkept sessionId).1 _ _ hprepare
  obtain ⟨ready, hresult⟩ := hprepares.read_result
  obtain ⟨session, saved, hsession, hlast, hread⟩ :=
    (hrefines.latestPlan hkept.holds).mp hprepares.read_plan
  obtain ⟨same, result, hsame, hlastResult, hready⟩ := (hrefines.latestResult hkept.holds).mp hresult
  obtain rfl := Option.some.inj (hsession.symm.trans hsame)
  obtain ⟨ready', evidence', rfl, hidentity, _⟩ := hkept.last_of_submittable hkeep hsession hlast
    hread hlastResult hready hprepares.same_version
  obtain ⟨record, hmem, hof, hrequest, hrecord⟩ := hcurrent sessionId session hsession
    ⟨saved, plan, _, ready, latest, evidence, hlast, hread, hlastResult, hready,
      hprepares.same_version⟩
  refine ⟨record, hmem, hof, (hrefines.request hkept.holds).mpr ⟨session, hsession, hrequest.symm⟩,
    ready', saved, evidence', plan, evidence, ?_, hread, hidentity, hprepares.read_plan,
    hprepares.mapped⟩
  exact Option.some.inj (hrecord.symm.trans hlastResult)

namespace Sample

/-- A search that finds nothing, or that is down. -/
def search (down : Bool) : HybridRetriever where
  arithmetic := { reciprocal := mkRat 1, add := Rat.add }
  candidateLimit := 7
  rrfK := 13
  index := {
    lexicalSearch := fun _ _ => if down then .error (.knowledgeError "index is down") else .ok []
    vectorSearch := fun _ _ => .ok [] }

/-- Calls that meet a model that has to be asked twice, and this search. -/
def planningInputs (down : Bool) : PlanningInputs ℕ where
  retriever := search down
  model := hastyModel
  modelState := 0
  raises _ := none
  identifier := "s"

def planningService : PlanningService Unit InMemoryKnowledgeStore InMemoryPlanningRepository where
  runtime := canonicalRuntime
  nodes := planningNodes
  repository := InMemoryPlanningRepository.repository
  knowledge := InMemoryKnowledgeStore.store
  mapper := { runtime := canonicalRuntime, tools := registry, validator := planningNodes.validator }

/-- A request in which nothing is missing. -/
def upgrade (target : String) : ChangeRequest where
  serviceId := some "orders"
  currentVersion := some "1"
  targetVersion := some target
  changeSummary := "upgrade"
  successConditions := ["healthy"]

/-- A plan for version 2 is ready, and then version 3 is asked for while the search is up or
down. -/
def upgradeCalls (down : Bool) : List (PlanningInputs ℕ × PlanningOperation Unit) := [
  (planningInputs false, .start (upgrade "2") none),
  (planningInputs down, .answer "s" [("target_version", .str "3")])]

def upgraded (down : Bool) : PlanningWorld InMemoryKnowledgeStore InMemoryPlanningRepository :=
  planningService.after ⟨{}, {}, []⟩ (upgradeCalls down)

theorem eq_ok_of_toOption {ε α : Type} {x : Except ε α} {a : α} (h : x.toOption = some a) :
    x = .ok a := by
  cases x with
  | ok b => exact congrArg Except.ok (Option.some.inj h)
  | error e => cases h

theorem eq_pair {α β : Type} {x : α × β} {a : α} (h : x.1 = a) : x = (a, x.2) := Prod.ext h rfl

theorem carriesThrough_upgrade : Runs.Along planningService.step planningService.CarriesThrough
    ⟨{}, {}, []⟩ (upgradeCalls false) := by
  let started : PlanningWorld InMemoryKnowledgeStore InMemoryPlanningRepository :=
    planningService.step ⟨{}, {}, []⟩ (planningInputs false, .start (upgrade "2") none)
  refine ⟨fun _ _ _ _ h => ?_, fun sessionId answers current updated h _ _ hget hupdated _ _ => ?_,
    trivial⟩
  · cases h
  · obtain ⟨rfl, rfl⟩ := PlanningOperation.answer.inj h
    have hcurrent : (planningService.repository.getRequest started.repository "s").toOption =
        some (upgrade "2") := by decide +kernel
    obtain rfl := Except.ok.inj ((eq_ok_of_toOption hcurrent).symm.trans hget)
    have hanswered : ((upgrade "2").answered canonicalRuntime
        [("target_version", .str "3")]).toOption = some (upgrade "3") := by decide +kernel
    obtain rfl := Except.ok.inj ((eq_ok_of_toOption hanswered).symm.trans hupdated)
    refine ⟨rfl, rfl, fun version hversion => ?_, rfl⟩
    have hnext : (planningService.repository.nextPlanVersion started.repository "s").toOption =
        some 2 := by decide +kernel
    obtain rfl := Except.ok.inj ((eq_ok_of_toOption hnext).symm.trans hversion)
    exact Except.isSome_toOption_iff.mp (show (planningService.planningResult (planningInputs false)
      started.knowledge "s" (upgrade "3") 2).toOption.isSome = true by decide +kernel)

end Sample

/-- Version 3 is asked for and the plan for version 3 is prepared. -/
theorem prepared_plan_answers_request_upgrade :
    PreparesCurrent Sample.planningService InMemoryPlanningRepository.reads
      (Sample.planningInputs false)
      (Sample.planningService.after ⟨{}, {}, []⟩ (Sample.upgradeCalls false)) :=
  prepared_plan_answers_request Sample.planningService .inMemory {} (Sample.upgradeCalls false)
    Sample.carriesThrough_upgrade (Sample.planningInputs false)

/-- Version 3 is asked for and the plan for version 2 is prepared. -/
theorem failed_answer_leaves_stale_plan :
    ¬ PreparesCurrent Sample.planningService InMemoryPlanningRepository.reads
      (Sample.planningInputs false)
      (Sample.planningService.after ⟨{}, {}, []⟩ (Sample.upgradeCalls true)) := by
  intro h
  change PreparesCurrent Sample.planningService _ _ (Sample.upgraded true) at h
  have hprepares : (Sample.planningService.prepareWorkflow (Sample.planningInputs false) "s"
      (Sample.upgraded true)).1.toOption.isSome = true := by decide +kernel
  obtain ⟨prepared, hprepared⟩ := Except.isSome_toOption_iff.mp hprepares
  obtain ⟨record, hmem, _, hrequest, _⟩ := h "s" prepared _ (Sample.eq_pair hprepared)
  have hrequests : (Sample.upgraded true).planned.map PlanningRecord.request =
      [Sample.upgrade "2"] := by decide +kernel
  have hstored : (Sample.planningService.repository.getRequest (Sample.upgraded true).repository
      "s").toOption = some (Sample.upgrade "3") := by decide +kernel
  have hrecord : record.request = Sample.upgrade "2" := by
    have hmem := List.mem_map_of_mem (f := PlanningRecord.request) hmem
    exact List.mem_singleton.mp (hrequests ▸ hmem)
  have hsame := Except.ok.inj ((Sample.eq_ok_of_toOption hstored).symm.trans hrequest)
  rw [hrecord] at hsame
  exact absurd hsame (by decide)

end ChangePilot
