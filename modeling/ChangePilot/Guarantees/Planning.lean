import ChangePilot.Domain.Digests
import ChangePilot.Planning.Graph
import ChangePilot.System.Sample

/-!
# Planning runs are bounded and sealed

A planning run ends with one result, after two calls of the model at most, the second one
for a repair.  A plan that is ready has been validated on the evidence that was retrieved,
and is identified by the session, whatever the model wrote.

`Reached` is what holds when the run comes to a node: what the node will read is there, and
the requests made so far are those of the path to it.  Each node leads from it to `Reached`
at the next node or to the end (`Advanced`), and the number of nodes still to come
decreases, so that the run ends before the limit of the graph.
-/

namespace ChangePilot

/-! ## Runs -/

/-- The number of nodes from one on to the end. -/
def PlanningNode.left : PlanningNode → ℕ
  | normalizeRequest => 7
  | checkRequiredContext => 6
  | retrieveKnowledge => 5
  | generatePlan => 4
  | validatePlan => 3
  | repairPlan => 2
  | validateRepairedPlan => 1

/-- The calls of the model before a node, those for a repair with `true`. -/
def PlanningNode.asked : PlanningNode → List Bool
  | normalizeRequest | checkRequiredContext | retrieveKnowledge | generatePlan => []
  | validatePlan | repairPlan => [false]
  | validateRepairedPlan => [false, true]

/-- The nodes that come after the retrieval. -/
def PlanningNode.retrieved : PlanningNode → Bool
  | normalizeRequest | checkRequiredContext | retrieveKnowledge => false
  | _ => true

/-- The nodes that read a payload. -/
def PlanningNode.validates (node : PlanningNode) : Bool :=
  node = validatePlan ∨ node = validateRepairedPlan

/-- A payload that is JSON. -/
def IsJson (payload : List (String × Value)) : Prop :=
  ∃ json, (Value.ofFields payload).json? = some json

section

variable (nodes : PlanningNodes) {γ : Type} (model : PlanningModel γ)
  (retrieve : String → ℤ → Except PlanningError RetrievalResult)

/-- The retrieval answers, the model answers JSON or raises one of the two exceptions that
are caught, and `json.dumps` and `sorted` raise nothing on JSON and on texts. -/
structure PlanningPorts : Prop where
  retrieves : ∀ query topK, ∃ retrieval, retrieve query topK = .ok retrieval
  caught : ∀ m request error, (model.generate m request).1 ≠ .raised error
  payloads : ∀ m request payload, (model.generate m request).1 = .response payload → IsJson payload
  catalog : ∀ tool ∈ nodes.toolCatalog, ∃ json, tool.json? = some json
  dumps : ∀ value json, value.json? = some json → ∃ text, nodes.dumpPayload value = .ok text
  sorts : nodes.validator.runtime.SortsTexts

/-- The plan is that of a valid report on the retrieved evidence, under the identity of the
session. -/
structure SealedPlan (state : PlanningState) (retrieval : RetrievalResult) (plan : ChangePlan) :
    Prop where
  validated : ∃ written report, nodes.validator.validate written retrieval.evidence = .ok report ∧
    report.valid = true ∧ report.normalizedPlan = some plan
  planId : plan.planId = sessionPlanId state.sessionId
  version : plan.version = state.planVersion
  snapshot : plan.knowledgeSnapshotDigest = retrieval.snapshot.digest
  promptVersion : plan.promptVersion = nodes.promptVersion
  toolPolicyVersion : plan.toolPolicyVersion = nodes.toolPolicyVersion

/-- Where a run may be before a node. -/
structure Reached (start : PlanningState) (node : PlanningNode) (run : PlanningRun γ) : Prop where
  sessionId : run.state.sessionId = start.sessionId
  planVersion : run.state.planVersion = start.planVersion
  pending : run.state.result = none
  retrieval : node.retrieved → ∃ retrieval, run.state.retrieval = some retrieval ∧
    retrieve (nodes.retrievalQuery run.state.request) 8 = .ok retrieval
  payload : node.validates → ∃ payload, run.state.rawPayload = some payload
  json : ∀ payload, run.state.rawPayload = some payload → IsJson payload
  repaired : node = .validateRepairedPlan → run.state.repairCount = some 1
  requests : run.requests.map Prod.fst = node.asked

/-- How a run ends. -/
structure Settled (start : PlanningState) (run : PlanningRun γ) : Prop where
  result : ∃ result, run.state.result = some result
  requests : run.requests.map Prod.fst <+: [false, true]
  ready : ∀ sessionId plan evidence,
    run.state.result = some (.planReady sessionId plan evidence) →
      sessionId = start.sessionId ∧ ∃ retrieval, run.state.retrieval = some retrieval ∧
        retrieve (nodes.retrievalQuery run.state.request) 8 = .ok retrieval ∧
        evidence = retrieval.evidence ∧ SealedPlan nodes start retrieval plan

end

section

variable {nodes : PlanningNodes} {γ : Type} {model : PlanningModel γ}
  {retrieve : String → ℤ → Except PlanningError RetrievalResult}
  {start : PlanningState} {run : PlanningRun γ}

/-- Where a run may be after a node: at the end, or before one that is closer to it. -/
inductive Advanced (nodes : PlanningNodes)
    (retrieve : String → ℤ → Except PlanningError RetrievalResult) (start : PlanningState)
    (node : PlanningNode) (after : PlanningRun γ) : Prop
  | ended (hnext : node.next after.state.result.isSome = none)
      (h : Settled nodes retrieve start after)
  | moved (next : PlanningNode) (hnext : node.next after.state.result.isSome = some next)
      (hleft : next.left < node.left) (h : Reached nodes retrieve start next after)

/-- A result that is no plan settles a run. -/
theorem Settled.of_result {result : PlanningResult} (hresult : run.state.result = some result)
    (hrequests : run.requests.map Prod.fst <+: [false, true])
    (hready : ∀ sessionId plan evidence, result ≠ .planReady sessionId plan evidence) :
    Settled nodes retrieve start run where
  result := ⟨result, hresult⟩
  requests := hrequests
  ready sessionId plan evidence h :=
    absurd (Option.some.inj (hresult.symm.trans h)) (hready sessionId plan evidence)

/-! ## The nodes -/

theorem PlanningNode.asked_prefix (node : PlanningNode) : node.asked <+: [false, true] := by
  cases node <;> decide

theorem Reached.normalizeRequest (h : Reached nodes retrieve start .normalizeRequest run) :
    Advanced nodes retrieve start .normalizeRequest
      { run with state := ChangePilot.normalizeRequest run.state } := by
  refine .moved .checkRequiredContext rfl (by decide) ?_
  exact { h with
    retrieval := fun hnode => by cases hnode
    payload := fun hnode => by cases hnode
    repaired := fun hnode => by cases hnode }

theorem Reached.checkRequiredContext (h : Reached nodes retrieve start .checkRequiredContext run) :
    Advanced nodes retrieve start .checkRequiredContext
      { run with state := ChangePilot.checkRequiredContext run.state } := by
  unfold ChangePilot.checkRequiredContext
  split
  · refine .moved .retrieveKnowledge ?_ (by decide) ?_
    · rw [h.pending]
      rfl
    · exact { h with
        retrieval := fun hnode => by cases hnode
        payload := fun hnode => by cases hnode
        repaired := fun hnode => by cases hnode }
  · refine .ended rfl (Settled.of_result rfl ?_ (fun _ _ _ hready => by cases hready))
    rw [h.requests]
    exact PlanningNode.asked_prefix _

theorem Reached.retrieveKnowledge (h : Reached nodes retrieve start .retrieveKnowledge run)
    {retrieval : RetrievalResult}
    (hretrieve : retrieve (nodes.retrievalQuery run.state.request) 8 = .ok retrieval) :
    Advanced nodes retrieve start .retrieveKnowledge
      { run with state := withRetrieval run.state retrieval } := by
  by_cases hconflicts : retrieval.conflicts = []
  · have hpending : (withRetrieval run.state retrieval).result = none := by
      rw [withRetrieval, if_pos hconflicts, h.pending]
    refine .moved .generatePlan ?_ (by decide) ?_
    · rw [hpending]
      rfl
    · exact { h with
        pending := hpending
        retrieval := fun _ => ⟨retrieval, rfl, hretrieve⟩
        payload := fun hnode => by cases hnode
        repaired := fun hnode => by cases hnode }
  · have hresult : (withRetrieval run.state retrieval).result =
        some (.clarificationRequired run.state.sessionId
          (retrieval.conflicts.map conflictQuestion)) := by
      rw [withRetrieval, if_neg hconflicts]
    refine .ended ?_ (Settled.of_result hresult ?_ (fun _ _ _ hready => by cases hready))
    · rw [hresult]
      rfl
    · rw [h.requests]
      exact PlanningNode.asked_prefix _

/-! ## The requests to the model -/

theorem exists_json?_strings (texts : List String) :
    ∃ json, (Value.list (texts.map .str)).json? = some json :=
  Value.exists_json?_list (List.forall_mem_map.mpr fun _ _ => ⟨_, rfl⟩)

theorem exists_json?_optional (text : Option String) :
    ∃ json, (ChangeRequest.modelDump.optional text).json? = some json := by
  cases text with
  | none => exact ⟨_, rfl⟩
  | some text => exact ⟨_, rfl⟩

theorem ChangeRequest.exists_json?_modelDump (request : ChangeRequest) :
    ∃ json, request.modelDump.json? = some json := by
  refine Value.exists_json?_ofFields (show ["service_id", "current_version", "target_version",
    "pull_request_url", "change_summary", "success_conditions", "constraints"].Nodup by decide) ?_
  simp only [List.forall_mem_cons]
  exact ⟨exists_json?_optional _, exists_json?_optional _, exists_json?_optional _,
    exists_json?_optional _, ⟨_, rfl⟩, exists_json?_strings _, exists_json?_strings _,
    List.forall_mem_nil _⟩

theorem exists_json?_rank (position : Option ℕ) :
    ∃ json, (RetrievedEvidence.modelDump.rank position).json? = some json := by
  cases position with
  | none => exact ⟨_, rfl⟩
  | some n => exact ⟨_, rfl⟩

theorem RetrievedEvidence.exists_json?_modelDump (item : RetrievedEvidence) :
    ∃ json, item.modelDump.json? = some json := by
  refine Value.exists_json?_ofFields (show ["reference", "text", "trust_level", "lexical_rank",
    "vector_rank", "hybrid_score", "conflict"].Nodup by decide) ?_
  simp only [List.forall_mem_cons]
  refine ⟨?_, ⟨_, rfl⟩, ⟨_, rfl⟩, exists_json?_rank _, exists_json?_rank _, ⟨_, rfl⟩, ⟨_, rfl⟩,
    List.forall_mem_nil _⟩
  refine Value.exists_json?_ofFields (show ["document_id", "document_version", "chunk_id",
    "location", "content_digest"].Nodup by decide) ?_
  simp only [List.forall_mem_cons]
  exact ⟨⟨_, rfl⟩, ⟨_, rfl⟩, ⟨_, rfl⟩, ⟨_, rfl⟩, ⟨_, rfl⟩, List.forall_mem_nil _⟩

/-- What the model is asked is JSON. -/
theorem PlanningPorts.exists_json?_userPayload (hports : PlanningPorts nodes model retrieve)
    {state : PlanningState} (hjson : ∀ payload, state.rawPayload = some payload → IsJson payload)
    (retrieval : RetrievalResult) (repair : Bool) :
    ∃ json, (nodes.userPayload state retrieval repair).json? = some json := by
  have hevidence : ∃ json,
      (Value.list (retrieval.evidence.map RetrievedEvidence.modelDump)).json? = some json :=
    Value.exists_json?_list (List.forall_mem_map.mpr fun item _ => item.exists_json?_modelDump)
  have hidentity : ∃ json, (Value.ofFields [
      ("plan_id", .str (sessionPlanId state.sessionId)), ("version", .int state.planVersion),
      ("knowledge_snapshot_digest", .str retrieval.snapshot.digest),
      ("prompt_version", .str nodes.promptVersion),
      ("tool_policy_version", .str nodes.toolPolicyVersion)]).json? = some json := by
    refine Value.exists_json?_ofFields (show ["plan_id", "version", "knowledge_snapshot_digest",
      "prompt_version", "tool_policy_version"].Nodup by decide) ?_
    simp only [List.forall_mem_cons]
    exact ⟨⟨_, rfl⟩, ⟨_, rfl⟩, ⟨_, rfl⟩, ⟨_, rfl⟩, ⟨_, rfl⟩, List.forall_mem_nil _⟩
  have hcatalog := Value.exists_json?_list hports.catalog
  -- the payload that is repaired came from a response
  have hraw : IsJson (state.rawPayload.getD []) := by
    cases hpayload : state.rawPayload with
    | none => exact ⟨_, rfl⟩
    | some payload => exact hjson payload hpayload
  cases repair with
  | false =>
      refine Value.exists_json?_ofFields (show ["request", "evidence", "required_plan_identity",
        "allowed_tools"].Nodup by decide) ?_
      simp only [List.append_nil, List.forall_mem_cons, Bool.false_eq_true, if_false]
      exact ⟨state.request.exists_json?_modelDump, hevidence, hidentity, hcatalog,
        List.forall_mem_nil _⟩
  | true =>
      refine Value.exists_json?_ofFields (show ["request", "evidence", "required_plan_identity",
        "allowed_tools", "invalid_payload", "validation_errors"].Nodup by decide) ?_
      simp only [if_true, List.cons_append, List.nil_append, List.forall_mem_cons]
      exact ⟨state.request.exists_json?_modelDump, hevidence, hidentity, hcatalog, hraw,
        exists_json?_strings _, List.forall_mem_nil _⟩

theorem PlanningPorts.exists_buildModelRequest (hports : PlanningPorts nodes model retrieve)
    {state : PlanningState} (hjson : ∀ payload, state.rawPayload = some payload → IsJson payload)
    {retrieval : RetrievalResult} (hretrieval : state.retrieval = some retrieval)
    (repair : Bool) : ∃ request, nodes.buildModelRequest state repair = .ok request := by
  obtain ⟨json, hpayload⟩ := hports.exists_json?_userPayload hjson retrieval repair
  obtain ⟨text, htext⟩ := hports.dumps _ _ hpayload
  unfold PlanningNodes.buildModelRequest
  rw [hretrieval, Except.bind_of_eq_ok (show requireKey "retrieval" (some retrieval) = _ from rfl),
    Except.bind_of_eq_ok htext]
  exact ⟨_, rfl⟩

/-- A call of the model ends the run without a plan, or leaves its payload in the state. -/
theorem Reached.exists_callModel (hports : PlanningPorts nodes model retrieve)
    {node : PlanningNode} (h : Reached nodes retrieve start node run) (hnode : node.retrieved)
    (repair : Bool) : ∃ after, callModel nodes model repair run = .ok after ∧
      after.requests.map Prod.fst = node.asked ++ [repair] ∧
      ((∃ result, after.state.result = some result ∧
          ∀ sessionId plan evidence, result ≠ .planReady sessionId plan evidence) ∨
        ∃ payload, IsJson payload ∧ after.state = { run.state with
          rawPayload := some payload
          repairCount := some (if repair then 1 else run.state.repairCount.getD 0) }) := by
  obtain ⟨retrieval, hretrieval, _⟩ := h.retrieval hnode
  obtain ⟨request, hrequest⟩ := hports.exists_buildModelRequest h.json hretrieval repair
  have hasked : (run.requests ++ [(repair, request)]).map Prod.fst = node.asked ++ [repair] := by
    rw [List.map_append, h.requests]
    rfl
  unfold callModel
  rw [Except.bind_of_eq_ok hrequest]
  dsimp only
  cases hended : (model.generate run.model request).1 with
  | response payload =>
      exact ⟨_, rfl, hasked, .inr ⟨payload, hports.payloads _ _ _ hended, rfl⟩⟩
  | budgetExceeded =>
      exact ⟨_, rfl, hasked, .inl ⟨_, rfl, fun _ _ _ hready => by cases hready⟩⟩
  | gatewayError message =>
      exact ⟨_, rfl, hasked, .inl ⟨_, rfl, fun _ _ _ hready => by cases hready⟩⟩
  | raised error => exact absurd hended (hports.caught _ _ error)

/-- The node that asks the model for a plan, or for a repair of it. -/
def PlanningNode.asking (repair : Bool) : PlanningNode :=
  if repair then repairPlan else generatePlan

/-- The node that reads what was asked for. -/
def PlanningNode.reading (repair : Bool) : PlanningNode :=
  if repair then validateRepairedPlan else validatePlan

theorem Reached.callModel (hports : PlanningPorts nodes model retrieve) {repair : Bool}
    (h : Reached nodes retrieve start (.asking repair) run) : ∃ after,
      ChangePilot.callModel nodes model repair run = .ok after ∧
        Advanced nodes retrieve start (.asking repair) after := by
  -- both calls are made from nodes that the retrieval comes before
  have hnode : (PlanningNode.asking repair).retrieved := by cases repair <;> rfl
  have hasked : (PlanningNode.asking repair).asked ++ [repair] =
      (PlanningNode.reading repair).asked := by cases repair <;> rfl
  have hedge : ∀ hasResult, (PlanningNode.asking repair).next hasResult =
      if hasResult then none else some (.reading repair) := by cases repair <;> exact fun _ => rfl
  -- the model raises, or its answer is read in the next node
  obtain ⟨after, hafter, hrequests, ⟨result, hresult, hready⟩ | ⟨payload, hjson, hstate⟩⟩ :=
    h.exists_callModel hports hnode repair
  · refine ⟨after, hafter, .ended ?_ (Settled.of_result hresult ?_ hready)⟩
    · rw [hresult, hedge]
      rfl
    · rw [hrequests, hasked]
      exact PlanningNode.asked_prefix _
  · refine ⟨after, hafter, .moved (.reading repair) ?_ (by cases repair <;> decide) ?_⟩
    · rw [hstate, h.pending, hedge]
      rfl
    · constructor
      case requests => exact hrequests.trans hasked
      case payload => exact fun _ => ⟨payload, by rw [hstate]⟩
      case json =>
        intro other hother
        rw [hstate] at hother
        exact Option.some.inj hother ▸ hjson
      all_goals rw [hstate]
      · exact h.sessionId
      · exact h.planVersion
      · exact h.pending
      · exact fun _ => h.retrieval hnode
      · intro hrepaired
        cases repair with
        | false => cases hrepaired
        | true => rfl

/-! ## Validation -/

/-- A plan out of a valid report is the one that was validated, but for its steps. -/
theorem sealedPlan_of_report {state : PlanningState} {retrieval : RetrievalResult}
    {written plan : ChangePlan} {report : ValidationReport}
    (hsession : state.sessionId = start.sessionId) (hversion : state.planVersion = start.planVersion)
    (hreport : nodes.validator.validate (nodes.sealPlan state retrieval written)
      retrieval.evidence = .ok report)
    (hvalid : report.valid = true) (hplan : report.normalizedPlan = some plan) :
    SealedPlan nodes start retrieval plan := by
  obtain ⟨_, hreports⟩ := PlanValidator.validate_valid_iff.mp ⟨hreport, hvalid⟩
  have hnormalized := hplan
  rw [hreports] at hnormalized
  obtain rfl := Option.some.inj hnormalized
  exact {
    validated := ⟨_, report, hreport, hvalid, hplan⟩
    planId := congrArg sessionPlanId hsession
    version := hversion
    snapshot := rfl
    promptVersion := rfl
    toolPolicyVersion := rfl }

/-- What a report does to a run. -/
theorem Reached.withReport {node : PlanningNode} (h : Reached nodes retrieve start node run)
    {retrieval : RetrievalResult} {written : ChangePlan} {report : ValidationReport}
    (hretrieval : run.state.retrieval = some retrieval)
    (hretrieve : retrieve (nodes.retrievalQuery run.state.request) 8 = .ok retrieval)
    (hreport : nodes.validator.validate (nodes.sealPlan run.state retrieval written)
      retrieval.evidence = .ok report) :
    Settled nodes retrieve start
      { run with state := PlanningNodes.withReport run.state retrieval report } := by
  have hrequests : run.requests.map Prod.fst <+: [false, true] := by
    rw [h.requests]
    exact PlanningNode.asked_prefix _
  unfold PlanningNodes.withReport
  split
  case h_1 plan hvalid hplan =>
    refine ⟨⟨_, rfl⟩, hrequests, fun sessionId ready evidence hready => ?_⟩
    obtain ⟨rfl, rfl, rfl⟩ := PlanningResult.planReady.inj (Option.some.inj hready)
    exact ⟨h.sessionId, retrieval, hretrieval, hretrieve, rfl,
      sealedPlan_of_report h.sessionId h.planVersion hreport hvalid hplan⟩
  case h_2 => exact Settled.of_result rfl hrequests (fun _ _ _ hready => by cases hready)

/-- A payload that is validated settles the run, unless it does not parse and may still be
repaired. -/
theorem Reached.exists_validatePayload (hports : PlanningPorts nodes model retrieve)
    {node : PlanningNode} (h : Reached nodes retrieve start node run) (hnode : node.validates) :
    ∃ state, nodes.validatePayload run.state = .ok state ∧
      ((run.state.repairCount.getD 0 < 1 ∧
          ∃ errors, state = { run.state with validationErrors := some errors }) ∨
        Settled nodes retrieve start { run with state := state }) := by
  have hretrieved : node.retrieved := by cases node <;> first | rfl | cases hnode
  -- what the node reads has been written by the nodes before it
  obtain ⟨payload, hpayload⟩ := h.payload hnode
  obtain ⟨retrieval, hretrieval, hretrieve⟩ := h.retrieval hretrieved
  have hread : requireKey "raw_payload" run.state.rawPayload = .ok payload := by
    rw [hpayload]
    rfl
  have hfound : requireKey "retrieval" run.state.retrieval = .ok retrieval := by
    rw [hretrieval]
    rfl
  unfold PlanningNodes.validatePayload
  rw [Except.bind_of_eq_ok hread, Except.bind_of_eq_ok hfound]
  cases nodes.parsePlan payload with
  -- a payload that is no plan is repaired once
  | error errors =>
      dsimp only
      split
      case isTrue hfirst => exact ⟨_, rfl, .inl ⟨hfirst, errors, rfl⟩⟩
      case isFalse =>
        refine ⟨_, rfl, .inr (Settled.of_result rfl ?_ (fun _ _ _ hready => by cases hready))⟩
        rw [h.requests]
        exact PlanningNode.asked_prefix _
  | ok written =>
      obtain ⟨report, hreport⟩ := PlanValidator.exists_validate hports.sorts
        (nodes.sealPlan run.state retrieval written) retrieval.evidence
      dsimp only
      rw [hreport]
      exact ⟨_, rfl, .inr (h.withReport hretrieval hretrieve hreport)⟩

theorem Reached.validatePayload (hports : PlanningPorts nodes model retrieve) {repair : Bool}
    (h : Reached nodes retrieve start (.reading repair) run) : ∃ state,
      nodes.validatePayload run.state = .ok state ∧
        Advanced nodes retrieve start (.reading repair) { run with state := state } := by
  have hnode : (PlanningNode.reading repair).validates := by cases repair <;> rfl
  obtain ⟨state, hstate, ⟨hfirst, errors, rfl⟩ | hsettled⟩ := h.exists_validatePayload hports hnode
  · cases repair with
    | true =>
        rw [h.repaired rfl] at hfirst
        exact absurd hfirst (by decide)
    | false =>
        refine ⟨_, hstate, .moved .repairPlan ?_ (by decide) ?_⟩
        · rw [h.pending]
          rfl
        · exact { h with
            payload := fun hnode => by cases hnode
            repaired := fun hnode => by cases hnode }
  · obtain ⟨result, hresult⟩ := hsettled.result
    refine ⟨state, hstate, .ended ?_ hsettled⟩
    rw [hresult]
    cases repair <;> rfl

/-! ## Whole runs -/

theorem Reached.exists_runNode (hports : PlanningPorts nodes model retrieve)
    {node : PlanningNode} (h : Reached nodes retrieve start node run) : ∃ after,
      runNode nodes model retrieve node run = .ok after ∧
        Advanced nodes retrieve start node after := by
  cases node with
  | normalizeRequest => exact ⟨_, rfl, h.normalizeRequest⟩
  | checkRequiredContext => exact ⟨_, rfl, h.checkRequiredContext⟩
  | retrieveKnowledge =>
      obtain ⟨retrieval, hretrieve⟩ :=
        hports.retrieves (nodes.retrievalQuery run.state.request) 8
      refine ⟨{ run with state := ChangePilot.withRetrieval run.state retrieval }, ?_,
        h.retrieveKnowledge hretrieve⟩
      simp only [runNode, PlanningNodes.retrieveKnowledge, hretrieve]
      rfl
  | generatePlan =>
      exact Reached.callModel hports (show Reached nodes retrieve start (.asking false) run from h)
  | repairPlan =>
      exact Reached.callModel hports (show Reached nodes retrieve start (.asking true) run from h)
  | validatePlan =>
      obtain ⟨state, hstate, hadvanced⟩ := Reached.validatePayload hports
        (show Reached nodes retrieve start (.reading false) run from h)
      refine ⟨_, ?_, hadvanced⟩
      simp only [runNode, hstate]
      rfl
  | validateRepairedPlan =>
      obtain ⟨state, hstate, hadvanced⟩ := Reached.validatePayload hports
        (show Reached nodes retrieve start (.reading true) run from h)
      refine ⟨_, ?_, hadvanced⟩
      simp only [runNode, hstate]
      rfl

/-- From a node that may be reached, a run ends within the nodes that are left. -/
theorem Reached.exists_runGraph (hports : PlanningPorts nodes model retrieve) (limit : ℕ) :
    ∀ {node : PlanningNode} {run : PlanningRun γ}, Reached nodes retrieve start node run →
      node.left ≤ limit → ∃ final, runGraph nodes model retrieve limit node run = .ok final ∧
        Settled nodes retrieve start final := by
  induction limit with
  | zero =>
      intro node run _ hleft
      cases node <;> cases hleft
  | succ limit ih =>
      intro node run h hleft
      obtain ⟨after, hafter, hadvanced⟩ := h.exists_runNode hports
      rw [runGraph, Except.bind_of_eq_ok hafter]
      cases hadvanced with
      | ended hnext hsettled =>
          rw [hnext]
          exact ⟨after, rfl, hsettled⟩
      | moved next hnext hcloser hreached =>
          rw [hnext]
          exact ih hreached (by omega)

end

/-- A run of the planning graph ends with one result, after two calls of the model at most
of which one at most is for a repair; a plan that is ready is validated on the evidence that
the run has retrieved for its request, and sealed. -/
theorem planning_is_bounded_and_sealed {γ : Type} (nodes : PlanningNodes)
    (model : PlanningModel γ) (retrieve : String → ℤ → Except PlanningError RetrievalResult)
    (hports : PlanningPorts nodes model retrieve) (m : γ) (sessionId : String)
    (request : ChangeRequest) (planVersion : ℕ) (hversion : 1 ≤ planVersion) :
    let start : PlanningState := {
      sessionId := sessionId, request := request
      planVersion := planVersion, planVersion_pos := hversion }
    ∃ run result, invoke nodes model retrieve m start = .ok run ∧ run.state.result = some result ∧
      run.requests.length ≤ 2 ∧ (run.requests.filter Prod.fst).length ≤ 1 ∧
      ∀ ready plan evidence, result = .planReady ready plan evidence → ready = sessionId ∧
        ∃ retrieval, run.state.retrieval = some retrieval ∧
          retrieve (nodes.retrievalQuery run.state.request) 8 = .ok retrieval ∧
          evidence = retrieval.evidence ∧ SealedPlan nodes start retrieval plan := by
  intro start
  -- nothing has been asked or retrieved yet
  have hstart : Reached nodes retrieve start .normalizeRequest { state := start, model := m } := {
    sessionId := rfl
    planVersion := rfl
    pending := rfl
    retrieval := fun hnode => by cases hnode
    payload := fun hnode => by cases hnode
    json := fun _ hpayload => by cases hpayload
    repaired := fun hnode => by cases hnode
    requests := rfl }
  obtain ⟨run, hrun, hsettled⟩ := hstart.exists_runGraph hports 25 (by decide)
  obtain ⟨result, hresult⟩ := hsettled.result
  -- the requests are a prefix of the two that the longest path makes
  have hlength : run.requests.length ≤ 2 := by
    rw [← List.length_map Prod.fst]
    exact hsettled.requests.length_le
  have hrepairs : (run.requests.filter Prod.fst).length ≤ 1 := by
    have hcount := hsettled.requests.sublist.count_le true
    rw [List.count_eq_countP, List.countP_map, List.countP_eq_length_filter] at hcount
    simpa [Function.comp_def] using hcount
  exact ⟨run, result, hrun, hresult, hlength, hrepairs, fun ready plan evidence hready =>
    hsettled.ready ready plan evidence (hready ▸ hresult)⟩

namespace Sample

theorem mapM_str {g : Value → Option String} (hg : ∀ text, g (.str text) = some text)
    (texts : List String) : (texts.map .str).mapM g = some texts := by
  induction texts with
  | nil => rfl
  | cons text rest ih =>
      rw [List.map_cons, List.mapM_cons, hg, ih]
      rfl

theorem canonicalRuntime_sortsTexts : canonicalRuntime.SortsTexts := by
  intro texts
  show ∃ sorted, sortTexts (texts.map .str) = .ok sorted
  unfold sortTexts
  rw [mapM_str fun _ => rfl]
  exact ⟨_, rfl⟩

/-- Nodes without policies; a plan is read out of every payload but the empty one. -/
def planningNodes : PlanningNodes where
  validator := {
    runtime := canonicalRuntime
    tools := registry
    policies := { version := "policy-1", policies := [], tools_nodup := List.nodup_nil } }
  promptVersion := "prompt-1"
  toolPolicyVersion := "policy-1"
  dumpPayload value := (canonicalRuntime.jsonDumps true value).mapError .raised
  planSchema := []
  parsePlan payload :=
    if payload.isEmpty then .error ["goal: Field required"]
    else .ok {
      planId := "other", version := 7, goal := "upgrade", steps := []
      knowledgeSnapshotDigest := "", promptVersion := "", toolPolicyVersion := ""
      version_pos := by decide, ids_nodup := List.nodup_nil }

/-- A model that has to be asked twice. -/
def hastyModel : PlanningModel ℕ where
  generate calls _ := (.response (if calls = 0 then [] else [("goal", .str "upgrade")]), calls + 1)
  callsUsed calls := calls
  totalTokens _ := 0

/-- A retrieval that finds one runbook. -/
def findsRunbook (query : String) (_ : ℤ) : Except PlanningError RetrievalResult :=
  .ok {
    query := query
    evidence := [{
      reference := ⟨"runbook", "1", "c", "runbook.md", "digest"⟩
      text := "Take a backup first.", trustLevel := .authoritative
      lexicalRank := some 1, vectorRank := none, hybridScore := 1 }]
    conflicts := [], snapshot := ⟨"digest", 1, 1⟩, insufficientEvidence := false }

/-- A request with everything that is asked for. -/
def completeRequest : ChangeRequest where
  serviceId := some "orders"
  currentVersion := some "1"
  targetVersion := some "2"
  changeSummary := "upgrade"
  successConditions := ["it runs"]

theorem planningPorts : PlanningPorts planningNodes hastyModel findsRunbook where
  retrieves query _ := ⟨_, rfl⟩
  caught _ _ _ h := by cases h
  payloads calls _ payload h := by
    obtain rfl := ModelOutcome.response.inj h
    by_cases hfirst : calls = 0
    · rw [if_pos hfirst]
      exact ⟨_, rfl⟩
    · rw [if_neg hfirst]
      exact ⟨_, rfl⟩
  catalog := List.forall_mem_nil _
  dumps value json h := by
    refine ⟨ChangePilot.jsonText floatText json, ?_⟩
    simp only [planningNodes, canonicalRuntime, h]
    rfl
  sorts := canonicalRuntime_sortsTexts

def isReady (run : PlanningRun ℕ) : Bool :=
  match run.state.result with
  | some (.planReady _ _ _) => true
  | _ => false

end Sample

/-- The first payload is no plan; the second is one, and comes under another identity. -/
theorem planning_is_bounded_and_sealed_hasty : ∃ run plan evidence retrieval,
    invoke Sample.planningNodes Sample.hastyModel Sample.findsRunbook 0 {
      sessionId := "s", request := Sample.completeRequest
      planVersion := 1, planVersion_pos := le_rfl } = .ok run ∧
    run.state.result = some (.planReady "s" plan evidence) ∧
    run.requests.map Prod.fst = [false, true] ∧
    run.state.retrieval = some retrieval ∧ evidence = retrieval.evidence ∧ evidence ≠ [] ∧
    plan.planId = sessionPlanId "s" ∧ plan.version = 1 ∧
    plan.knowledgeSnapshotDigest = retrieval.snapshot.digest := by
  obtain ⟨run, result, hrun, hresult, _, _, hready⟩ :=
    planning_is_bounded_and_sealed Sample.planningNodes Sample.hastyModel Sample.findsRunbook
      Sample.planningPorts 0 "s" Sample.completeRequest 1 le_rfl
  have hends : ((invoke Sample.planningNodes Sample.hastyModel Sample.findsRunbook 0 {
      sessionId := "s", request := Sample.completeRequest
      planVersion := 1, planVersion_pos := le_rfl }).toOption.any fun run =>
        Sample.isReady run ∧ run.requests.map Prod.fst = [false, true]) = true := by
    decide +kernel
  rw [hrun] at hends
  obtain ⟨hsettled, hasked⟩ := of_decide_eq_true hends
  rw [Sample.isReady, hresult] at hsettled
  cases result with
  | planReady sessionId plan evidence =>
      obtain ⟨rfl, retrieval, hretrieval, hretrieve, rfl, hsealed⟩ := hready _ _ _ rfl
      obtain rfl := Except.ok.inj hretrieve
      exact ⟨run, plan, _, _, hrun, hresult, hasked, hretrieval, rfl, List.cons_ne_nil _ _,
        hsealed.planId, hsealed.version, hsealed.snapshot⟩
  | _ => cases hsettled

end ChangePilot
