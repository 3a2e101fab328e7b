import ChangePilot.Guarantees.Redaction
import ChangePilot.System.Recording

/-!
# What approvals show of the arguments

A barrier writes the arguments of its step into the request it adds and into the event of
that request.  Arguments that hold a secret reference which was lost in persistence are
written as they are; all others are redacted first.

The argument is about two barriers of one step whose argument mappings differ in what is
sensitive only:

* `Barrier.written_eq_records` and `Barrier.written_eq_nil` say what a barrier writes about
  approvals: if nothing is to be recovered, the run may wait and the arguments can be shown,
  the requests for other executions are invalidated and one is added; otherwise nothing is
  written;
* `ApprovalSnapshot.Fresh.exists_alike`: without lost references, if the one mapping can be
  shown and the other is canonical JSON that the tool accepts, then the other can be shown
  too, and it shows the same;
* `approval_reveals_nothing_iff` puts the two together.
-/

namespace ChangePilot

/-! ## What the request shows -/

/-- The reasons for which a step is protected. -/
def riskReasonsOf (cfg : Deployment) (risk : String) (descriptor : ToolDescriptor) :
    List String :=
  (if cfg.runtime.casefold risk == "high" then ["step_risk_high"] else []) ++
    (if descriptor.risk == .high then ["tool_risk_high"] else [])

/-- What a request shows if no secret reference was lost: the arguments are canonical JSON,
and they are validated and redacted. -/
structure ApprovalSnapshot.Fresh (cfg : Deployment) (definition : WorkflowDefinition)
    (step : StepDefinition) (descriptor : ToolDescriptor) (snapshot : ApprovalSnapshot) : Prop where
  canonical : ∃ canonical, canonicalJsonValue step.arguments = .ok canonical
  shown : ∃ coerced, cfg.registry.coerceArguments cfg.runtime step.tool.name step.tool.version
      step.arguments = .ok coerced ∧
    canonicalJsonValue (redact cfg.runtime descriptor.sensitiveArgumentPaths coerced) =
      .ok snapshot.redactedArguments
  digest : approvalBindingDigest cfg.runtime definition.digest step.id step.tool.name
    step.tool.version snapshot.redactedArguments = .ok snapshot.bindingDigest
  reasons : snapshot.riskReasons = riskReasonsOf cfg step.risk descriptor

theorem approvalSnapshot_eq_ok_iff {cfg : Deployment} {definition : WorkflowDefinition}
    {step : StepDefinition} {descriptor : ToolDescriptor} {snapshot : ApprovalSnapshot}
    (hdescriptor : cfg.registry.descriptorFor step.tool.name step.tool.version = .ok descriptor)
    (hlost : containsUnavailableSecretRef step.arguments = false) :
    approvalSnapshot cfg definition step = .ok snapshot ↔
      snapshot.Fresh cfg definition step descriptor := by
  unfold approvalSnapshot
  rw [Except.bind_of_eq_ok hdescriptor]
  simp only [hlost, Bool.false_eq_true, if_false, Except.bind_eq_ok_iff, Except.pure_eq_ok_iff]
  constructor
  · rintro ⟨canonical, hcanonical, coerced, hcoerced, _, rfl, shown, hshown, digest, hdigest, rfl⟩
    exact ⟨⟨canonical, hcanonical⟩, ⟨coerced, hcoerced, hshown⟩, hdigest, rfl⟩
  · rintro ⟨⟨canonical, hcanonical⟩, ⟨coerced, hcoerced, hshown⟩, hdigest, hreasons⟩
    refine ⟨canonical, hcanonical, coerced, hcoerced, _, rfl, _, hshown, _, hdigest, ?_⟩
    rw [riskReasonsOf] at hreasons
    rw [← hreasons]

/-! ## Requests and events without identity -/

def noDigest : Sha256Digest := ⟨String.ofList (List.replicate 64 '0'), by decide +kernel⟩

/-- A request without its digests, identifiers and instants. -/
def ApprovalRequest.anonymous (request : ApprovalRequest) : ApprovalRequest :=
  { request with
    id := ""
    definitionDigest := ""
    bindingDigest := noDigest
    createdAt := 0
    actor := request.actor.map fun _ => ⟨noDigest⟩
    reason := request.reason.map fun reason => ⟨reason.digest.map fun _ => noDigest⟩
    decidedAt := request.decidedAt.map fun _ => 0
    consistent := by
      have h := request.consistent
      revert h
      cases request.status <;> simp [approvalFieldsConsistent] }

/-- The entries of a mapping that do not identify anything. -/
def Value.withoutIdentity : Value → Value
  | .dict entries => .dict <| entries.filter fun entry =>
      match entry.1 with
      | .str name => name ∉ ["request_id", "binding_digest"]
      | _ => true
  | value => value

/-- An event without its digests, identifiers and instants. -/
def AuditEvent.anonymous (event : AuditEvent) : AuditEvent :=
  { event with occurredAt := 0, summary := event.summary.withoutIdentity }

/-- A request or an approval event that is written. -/
inductive ApprovalRecord where
  | request (request : ApprovalRequest)
  | event (event : AuditEvent)

def approvalEventTypes : List EventType :=
  [.approvalCreated, .approvalInvalidated, .approvalApproved, .approvalRejected]

/-- What a write says about approvals, apart from digests, identifiers and instants. -/
def Write.approvalRecord? : Write → Option ApprovalRecord
  | .addApproval request | .saveApproval request _ => some (.request request.anonymous)
  | .appendEvent event =>
      if event.eventType ∈ approvalEventTypes then some (.event event.anonymous) else none
  | _ => none

def approvalRecords (writes : List Write) : List ApprovalRecord :=
  writes.filterMap Write.approvalRecord?

theorem approvalRecords_append (writes more : List Write) :
    approvalRecords (writes ++ more) = approvalRecords writes ++ approvalRecords more :=
  List.filterMap_append

/-! ## What the barrier writes -/

/-- A request that may still be decided, or that stands. -/
def ApprovalRequest.Live (request : ApprovalRequest) : Prop :=
  request.status = .pending ∨ request.status = .approved

instance (request : ApprovalRequest) : Decidable request.Live :=
  inferInstanceAs (Decidable (_ ∨ _))

/-- What is written of a request for another execution. -/
def invalidationRecords (runId : String) (state : RunState) (revision : ℕ)
    (request : ApprovalRequest) : List ApprovalRecord :=
  if request.Live then
    [.request (request.invalidated 0).anonymous,
      .event (AuditEvent.approvalChanged runId request.stepId .approvalInvalidated 0 state state
        revision revision "" "" "invalidated" []).anonymous]
  else []

/-- Nothing that is written removes a request. -/
theorem isSome_approvals_view {key : ApprovalKey} (writes : List Write) :
    ∀ {base : MemoryStore}, (base.approvals.get key).isSome →
      ((UowM.view base writes).approvals.get key).isSome := by
  induction writes with
  | nil => exact id
  | cons write rest ih =>
      intro base h
      refine ih ?_
      have hput (request : ApprovalRequest) : ((base.approvals.put request).get key).isSome := by
        rw [KeyedTable.get_put]
        split
        · rfl
        · exact h
      cases write with
      | addApproval request | saveApproval request => exact hput request
      | _ => exact h

theorem invalidateOthers_returns {run : WorkflowRun} {binding : Binding} {occurredAt : Timestamp}
    {base : MemoryStore} (requests : List ApprovalRequest)
    (hstored : ∀ request ∈ requests, (base.approvals.get request.key).isSome)
    (hothers : ∀ request ∈ requests, request.Live → ¬ request.Matches binding) :
    ∀ {staged : List Write}, (∀ request, Write.addApproval request ∉ staged) →
      Tx.Returns (invalidateOthers run binding occurredAt none requests)
        (fun matching final => matching = none ∧ (∀ request, Write.addApproval request ∉ final) ∧
          approvalRecords final = approvalRecords staged ++
            requests.flatMap (invalidationRecords run.runId run.state run.revision))
        base staged := by
  induction requests with
  | nil =>
      intro staged hnone
      exact Tx.returns_pure ⟨rfl, hnone, (List.append_nil _).symm⟩
  | cons request rest ih =>
      intro staged hnone
      obtain ⟨hfirst, hrest⟩ := List.forall_mem_cons.mp hothers
      obtain ⟨hthere, hstored⟩ := List.forall_mem_cons.mp hstored
      unfold invalidateOthers
      by_cases hlive : request.Live
      · obtain ⟨old, hold⟩ := Option.isSome_iff_exists.mp (isSome_approvals_view staged hthere)
        rw [if_neg fun hclosed => hlive.elim hclosed.1 hclosed.2, if_neg (hfirst hlive)]
        -- The request is saved one version later, with an event that says so.
        have hversion : (request.invalidated occurredAt).version = request.version + 1 := rfl
        refine Tx.returns_bind ?_
        rw [UowM.saveApproval, if_neg (not_not.mpr hversion)]
        refine Tx.returns_bind <| Tx.returns_read <| Tx.returns_bind <|
          Tx.returns_require hold <| Tx.returns_stage <| Tx.returns_bind <| Tx.returns_stage ?_
        refine (ih hstored hrest (by simpa using hnone)).mono fun matching final h =>
          ⟨h.1, h.2.1, h.2.2.trans ?_⟩
        rw [approvalRecords_append, approvalRecords_append, List.flatMap_cons,
          invalidationRecords, if_pos hlive, List.append_assoc, List.append_assoc]
        rfl
      · rw [if_pos (not_or.mp hlive), List.flatMap_cons, invalidationRecords, if_neg hlive]
        exact ih hstored hrest hnone

/-- The run waits for approvals, or may begin to. -/
def WorkflowRun.MayWait (run : WorkflowRun) : Prop :=
  run.state = .waitingApproval ∨ RunState.waitingApproval ∈ runTransitions run.state

/-- A run that waits, from now on or already. -/
def WorkflowRun.waiting (run : WorkflowRun) : WorkflowRun :=
  if run.state = .waitingApproval then run else run.moved .waitingApproval

theorem enterWaiting_returns {run : WorkflowRun} (hrun : run.MayWait) {occurredAt : Timestamp}
    {base : MemoryStore} {staged : List Write}
    (hnone : ∀ request, Write.addApproval request ∉ staged) :
    Tx.Returns (enterWaiting run occurredAt) (fun changed final => changed = run.waiting ∧
      (∀ request, Write.addApproval request ∉ final) ∧
        approvalRecords final = approvalRecords staged) base staged := by
  unfold enterWaiting
  by_cases hstate : run.state = .waitingApproval
  · rw [if_neg (not_not.mpr hstate)]
    exact Tx.returns_pure ⟨(if_pos hstate).symm, hnone, rfl⟩
  · rw [if_pos hstate]
    refine Tx.returns_bind <| Tx.returns_lift
      (WorkflowRun.transition_eq_ok_iff.mpr ⟨hrun.resolve_left hstate, rfl, rfl⟩) <|
        Tx.returns_bind <| returns_saveRun rfl <| Tx.returns_bind <| Tx.returns_stage <|
          Tx.returns_pure ⟨(if_neg hstate).symm, by simpa using hnone, ?_⟩
    rw [List.append_assoc, approvalRecords_append]
    exact List.append_nil _

theorem enterWaiting_mayWait {run : WorkflowRun} {occurredAt : Timestamp} {base : MemoryStore}
    {staged : List Write} :
    Tx.Ensures (enterWaiting run occurredAt) (fun _ _ => run.MayWait) base staged := by
  unfold enterWaiting
  simp only [Tx.ensures_ite, Tx.ensures_bind, Tx.ensures_lift, Prod.forall,
    WorkflowRun.transition_eq_ok_iff, UowM.ensures_saveRun, Tx.ensures_stage, Tx.ensures_pure]
  exact ⟨fun _ _ _ h _ => .inr h.1, fun hstate => .inl (not_not.mp hstate)⟩

/-- A barrier that is to be established for a step of which no request is live. -/
structure Barrier (cfg : Deployment) (runId : String) where
  store : MemoryStore
  ownedFutures : List OwnedFuture
  run : WorkflowRun
  definition : WorkflowDefinition
  step : StepDefinition
  newId : String
  occurredAt : Timestamp
  hrun : store.runs.get runId = some run
  hdefinition : store.definitionOf run = some definition
  hstep : definition.steps.find? (fun other => other.id = step.id) = some step
  hnew : ∀ request ∈ store.listApprovals runId, request.stepId = step.id → ¬ request.Live

/-- The request of a barrier without its identity, and its event. -/
def creationRecords (runId : String) (run : WorkflowRun) (step : StepDefinition)
    (redactedArguments : Value) (riskReasons : List String) : List ApprovalRecord :=
  let request : ApprovalRequest := {
    id := "", runId := runId, definitionDigest := "", stepId := step.id
    toolName := step.tool.name, toolVersion := step.tool.version
    redactedArguments := redactedArguments, bindingDigest := noDigest
    riskReasons := riskReasons, createdAt := 0
    consistent := approvalFieldsConsistent_pending }
  [.request request.anonymous, .event (createdApprovalEvent run run.waiting request 0).anonymous]

namespace Barrier

variable {cfg : Deployment} {runId : String} (barrier : Barrier cfg runId)

/-- What recovery finds to do first. -/
def recoveryWork : Except Error Bool :=
  uowHasPersistedRecoveryWork barrier.ownedFutures barrier.store barrier.run barrier.definition

/-- Nothing is to be recovered first, and the run may wait for an approval. -/
def Due : Prop := barrier.recoveryWork = .ok false ∧ barrier.run.MayWait

/-- What `_establish_approval_barrier` writes about approvals, which is nothing if it raises
or leaves its unit of work. -/
def written : List ApprovalRecord :=
  match establishApprovalBarrier cfg barrier.ownedFutures runId barrier.step.id barrier.newId
    barrier.occurredAt barrier.store [] with
  | .ok (.commit _, writes) => approvalRecords writes
  | _ => []

/-- The requests for other executions are invalidated, and one is added for this one. -/
def records (redactedArguments : Value) (riskReasons : List String) : List ApprovalRecord :=
  (barrier.store.listApprovals runId).flatMap
    (invalidationRecords barrier.run.runId barrier.run.state barrier.run.revision) ++
  creationRecords runId barrier.run barrier.step redactedArguments riskReasons

theorem written_eq_records (hdue : barrier.Due) {snapshot : ApprovalSnapshot}
    (hsnapshot : approvalSnapshot cfg barrier.definition barrier.step = .ok snapshot) :
    barrier.written = barrier.records snapshot.redactedArguments snapshot.riskReasons := by
  obtain ⟨hwork, hrun⟩ := hdue
  -- no request is live for this step, so none matches
  have hothers : ∀ request ∈ barrier.store.listApprovals runId, request.Live →
      ¬ request.Matches (bindingOf barrier.definition barrier.step snapshot) :=
    fun request hrequest hlive hmatches =>
      barrier.hnew request hrequest (congrArg Binding.stepId hmatches) hlive
  have happroved : ((barrier.store.listApprovals runId).any fun request =>
      request.Approves (bindingOf barrier.definition barrier.step snapshot)) = false := by
    simp only [List.any_eq_false, decide_eq_true_eq]
    exact fun request hrequest h => hothers request hrequest (.inr h.1) h.2
  -- every request listed is stored under its own key
  have hstored : ∀ request ∈ barrier.store.listApprovals runId,
      (barrier.store.approvals.get request.key).isSome := fun request hrequest => by
    rw [KeyedTable.get_key (List.mem_of_mem_filter hrequest)]
    rfl
  have hreturns : Tx.Returns (establishApprovalBarrier cfg barrier.ownedFutures runId
      barrier.step.id barrier.newId barrier.occurredAt) (fun exit final => exit.Committed ∧
        approvalRecords final =
          barrier.records snapshot.redactedArguments snapshot.riskReasons) barrier.store [] := by
    unfold establishApprovalBarrier
    refine Tx.returns_bind <| Tx.returns_read <| Tx.returns_bind <|
      Tx.returns_require barrier.hrun <| Tx.returns_bind <| Tx.returns_read <|
      Tx.returns_bind <| Tx.returns_require barrier.hdefinition <| Tx.returns_bind <|
      Tx.returns_read <| Tx.returns_bind <| Tx.returns_lift hwork ?_
    rw [if_neg Bool.false_ne_true]
    refine Tx.returns_bind <| Tx.returns_require barrier.hstep <| Tx.returns_bind <|
      Tx.returns_lift hsnapshot <| Tx.returns_bind <| Tx.returns_read ?_
    dsimp only
    -- so the barrier is established
    rw [Tx.view_nil, happroved, if_neg Bool.false_ne_true]
    refine Tx.returns_bind <| (invalidateOthers_returns _ hstored hothers
      fun _ => List.not_mem_nil).mono ?_
    rintro matching staged ⟨rfl, hnone, hstaged⟩
    refine Tx.returns_bind <| (enterWaiting_returns hrun hnone).mono ?_
    rintro changed final ⟨rfl, hnone, hfinal⟩
    -- and the new request is not among those added already
    have hadded (request : ApprovalRequest) :
        UowM.hasAdded Write.addedApproval request.key final = false := by
      rw [UowM.hasAdded, List.any_eq_false]
      intro write hwrite
      cases write with
      | addApproval other => exact absurd hwrite (hnone other)
      | _ => simp [Write.addedApproval]
    rw [if_pos Option.isNone_none]
    refine Tx.returns_bind ?_
    unfold UowM.addApproval
    refine Tx.returns_bind ⟨final, final, rfl, ?_⟩
    dsimp only
    rw [hadded, if_neg Bool.false_ne_true]
    refine Tx.returns_stage <| Tx.returns_bind <| Tx.returns_stage <|
      Tx.returns_pure ⟨trivial, ?_⟩
    rw [List.append_assoc, approvalRecords_append, hfinal, hstaged]
    rfl
  obtain ⟨exit, writes, hestablished, hcommitted, hrecords⟩ := hreturns
  unfold written
  rw [hestablished]
  cases exit with
  | leave => exact hcommitted.elim
  | commit => exact hrecords

theorem written_eq_nil (h : barrier.Due → ∀ snapshot,
    approvalSnapshot cfg barrier.definition barrier.step ≠ .ok snapshot) :
    barrier.written = [] := by
  have hspec : Tx.Ensures (establishApprovalBarrier cfg barrier.ownedFutures runId barrier.step.id
      barrier.newId barrier.occurredAt) (fun exit _ => ¬ exit.Committed) barrier.store [] := by
    unfold establishApprovalBarrier
    simp only [Tx.ensures_bind, Tx.ensures_read, Tx.ensures_require, Tx.ensures_lift,
      Tx.ensures_ite, Tx.ensures_pure, Tx.view_nil, barrier.hrun, barrier.hdefinition,
      barrier.hstep, Option.some.injEq, forall_eq']
    intro work hwork
    refine ⟨fun _ h => h, fun hidle snapshot hsnapshot => ⟨fun _ h => h, fun _ => ?_⟩⟩
    obtain rfl : work = false := Bool.eq_false_of_not_eq_true hidle
    refine fun _ _ _ _ _ hentered => absurd hsnapshot (h ⟨hwork, ?_⟩ snapshot)
    exact enterWaiting_mayWait _ _ hentered
  unfold written
  split
  case h_1 established => exact absurd trivial (hspec _ _ established)
  case h_2 => rfl

theorem runId_run : barrier.run.runId = runId := ((KeyedTable.get_eq_some_iff _).mp barrier.hrun).2

end Barrier

/-! ## Two argument mappings -/

/-- The arguments are canonical JSON, and the tool accepts them. -/
def presentable (cfg : Deployment) (tool : ToolReference) (arguments : Value) : Bool :=
  (canonicalJsonValue arguments).toOption.isSome &&
    (cfg.registry.coerceArguments cfg.runtime tool.name tool.version arguments).toOption.isSome

/-- The model keeps apart what it validates: payloads that are the same but for what is
sensitive give instances that are. -/
def ModelType.Fieldwise (model : ModelType) (runtime : Runtime)
    (sensitivePaths : List (List String)) : Prop :=
  ∀ payload payload' validated validated',
    Value.Alike runtime sensitivePaths [] (.dict payload) (.dict payload') →
    model.modelValidate payload = .ok validated → model.modelValidate payload' = .ok validated' →
    Value.Alike runtime sensitivePaths [] validated validated'

/-- Whether `json.dumps` raises on a mapping does not depend on which text stands first in it. -/
def Runtime.DumpsEveryText (runtime : Runtime) : Prop :=
  ∀ key text text' fields encoded,
    runtime.jsonDumps false (.ofFields ((key, .str text) :: fields)) = .ok encoded →
      ∃ encoded', runtime.jsonDumps false (.ofFields ((key, .str text') :: fields)) = .ok encoded'

/-- The digest of another plan can be taken of whatever the digest of one can. -/
theorem exists_approvalBindingDigest {runtime : Runtime} (hdumps : runtime.DumpsEveryText)
    {planDigest stepId toolName toolVersion : String} {redactedArguments : Value}
    {digest : Sha256Digest} (h : approvalBindingDigest runtime planDigest stepId toolName
      toolVersion redactedArguments = .ok digest) (planDigest' : String) :
    ∃ digest', approvalBindingDigest runtime planDigest' stepId toolName toolVersion
      redactedArguments = .ok digest' := by
  obtain ⟨canonical, hcanonical, h⟩ := Except.bind_eq_ok_iff.mp h
  obtain ⟨encoded, hencoded, _⟩ := Except.bind_eq_ok_iff.mp h
  obtain ⟨encoded', hencoded'⟩ := hdumps _ _ planDigest' _ _ hencoded
  exact ⟨_, (Except.bind_of_eq_ok hcanonical _).trans (Except.bind_of_eq_ok hencoded' _)⟩

section

variable {cfg : Deployment} {definition definition' : WorkflowDefinition}
  {step step' : StepDefinition} {descriptor : ToolDescriptor} {snapshot : ApprovalSnapshot}

theorem ApprovalSnapshot.Fresh.presentable (h : snapshot.Fresh cfg definition step descriptor) :
    presentable cfg step.tool step.arguments = true := by
  obtain ⟨_, hcanonical⟩ := h.canonical
  obtain ⟨_, hcoerced, _⟩ := h.shown
  rw [ChangePilot.presentable, hcanonical, hcoerced]
  rfl

/-- Where the one mapping can be shown, another that is redacted to the same can be shown too,
if it is canonical JSON and the tool accepts it. -/
theorem ApprovalSnapshot.Fresh.exists_alike (hdumps : cfg.runtime.DumpsEveryText)
    (h : snapshot.Fresh cfg definition step descriptor)
    (hstep : step' = { step with arguments := step'.arguments })
    (hredacted : ∀ coerced coerced',
      cfg.registry.coerceArguments cfg.runtime step.tool.name step.tool.version step.arguments =
        .ok coerced →
      cfg.registry.coerceArguments cfg.runtime step.tool.name step.tool.version step'.arguments =
        .ok coerced' →
      redact cfg.runtime descriptor.sensitiveArgumentPaths coerced =
        redact cfg.runtime descriptor.sensitiveArgumentPaths coerced')
    (hpresentable : ChangePilot.presentable cfg step.tool step'.arguments = true)
    (definition' : WorkflowDefinition) :
    ∃ snapshot' : ApprovalSnapshot, snapshot'.Fresh cfg definition' step' descriptor ∧
      snapshot'.redactedArguments = snapshot.redactedArguments ∧
      snapshot'.riskReasons = snapshot.riskReasons := by
  obtain ⟨_, ⟨coerced, hcoerced, hshown⟩, hdigest, hreasons⟩ := h
  obtain ⟨hcanonical', hcoerced'⟩ := Bool.and_eq_true_iff.mp hpresentable
  obtain ⟨canonical', hcanonical'⟩ := Except.isSome_toOption_iff.mp hcanonical'
  obtain ⟨coerced', hcoerced'⟩ := Except.isSome_toOption_iff.mp hcoerced'
  -- a digest exists, since texts of arguments can always be dumped
  obtain ⟨digest', hdigest'⟩ := exists_approvalBindingDigest hdumps hdigest definition'.digest
  -- what is shown is the same
  rw [hredacted coerced coerced' hcoerced hcoerced'] at hshown
  have htool : step'.tool = step.tool := (congrArg StepDefinition.tool hstep).trans rfl
  have hid : step'.id = step.id := (congrArg StepDefinition.id hstep).trans rfl
  have hrisk : step'.risk = step.risk := (congrArg StepDefinition.risk hstep).trans rfl
  refine ⟨⟨snapshot.redactedArguments, digest', snapshot.riskReasons⟩,
    ⟨⟨canonical', hcanonical'⟩, ⟨coerced', ?_, hshown⟩, ?_, ?_⟩, rfl, rfl⟩
  · rw [htool]
    exact hcoerced'
  · rw [htool, hid]
    exact hdigest'
  · rw [hrisk]
    exact hreasons

theorem coerceArguments_eq_ok {tool : ToolReference} {arguments coerced : Value}
    {payload : List (Value × Value)}
    (hdescriptor : cfg.registry.descriptorFor tool.name tool.version = .ok descriptor)
    (hpayload : arguments.entries? = some payload)
    (h : cfg.registry.coerceArguments cfg.runtime tool.name tool.version arguments = .ok coerced) :
    descriptor.inputModel.modelValidate payload = .ok coerced := by
  rw [ToolRegistry.coerceArguments, Except.bind_of_eq_ok hdescriptor,
    ToolRegistry.requireMapping, hpayload] at h
  obtain ⟨_, hmapping, h⟩ := Except.bind_eq_ok_iff.mp h
  obtain rfl := Except.ok.inj hmapping
  dsimp only at h
  split at h
  · cases h
  obtain ⟨_, _, hvalidated⟩ := Except.bind_eq_ok_iff.mp h
  unfold ToolRegistry.validateModel at hvalidated
  split at hvalidated
  · obtain rfl := Except.ok.inj hvalidated
    assumption
  · cases hvalidated

end

/-- What a new request shows of its run and its step. -/
theorem creationRecords_congr {runId : String} {run run' : WorkflowRun}
    {step step' : StepDefinition} (hstate : run'.state = run.state)
    (hrevision : run'.revision = run.revision) (hid : step'.id = step.id)
    (htool : step'.tool = step.tool) (redactedArguments : Value) (riskReasons : List String) :
    creationRecords runId run' step' redactedArguments riskReasons =
      creationRecords runId run step redactedArguments riskReasons := by
  have hwaiting : run'.waiting.state = run.waiting.state ∧
      run'.waiting.revision = run.waiting.revision := by
    unfold WorkflowRun.waiting
    rw [hstate]
    split
    · exact ⟨hstate, hrevision⟩
    · exact ⟨rfl, congrArg (· + 1) hrevision⟩
  simp only [creationRecords, createdApprovalEvent, hstate, hrevision, hid, htool, hwaiting]

/-- What is written of a request does not depend on its identity. -/
theorem flatMap_invalidationRecords (runId : String) (state : RunState) (revision : ℕ)
    (requests : List ApprovalRequest) :
    requests.flatMap (invalidationRecords runId state revision) =
      (requests.map ApprovalRequest.anonymous).flatMap
        (invalidationRecords runId state revision) := by
  rw [List.flatMap_map]
  rfl

/-- Another barrier of the step, in a state that differs in the arguments of the step and in
what identifies the requests only. -/
structure Barrier.SameBut {cfg : Deployment} {runId : String} (barrier other : Barrier cfg runId) :
    Prop where
  state : other.run.state = barrier.run.state
  revision : other.run.revision = barrier.run.revision
  requests : (other.store.listApprovals runId).map ApprovalRequest.anonymous =
    (barrier.store.listApprovals runId).map ApprovalRequest.anonymous
  step : other.step = { barrier.step with arguments := other.step.arguments }
  work : other.recoveryWork = barrier.recoveryWork

namespace Barrier

variable {cfg : Deployment} {runId : String} {barrier other : Barrier cfg runId}
  {descriptor : ToolDescriptor}

namespace SameBut

theorem tool (h : barrier.SameBut other) : other.step.tool = barrier.step.tool :=
  (congrArg StepDefinition.tool h.step).trans rfl

theorem symm (h : barrier.SameBut other) : other.SameBut barrier where
  state := h.state.symm
  revision := h.revision.symm
  requests := h.requests.symm
  step := by rw [h.step]
  work := h.work.symm

theorem due (h : barrier.SameBut other) (hdue : barrier.Due) : other.Due := by
  refine ⟨h.work.trans hdue.1, ?_⟩
  rw [WorkflowRun.MayWait, h.state]
  exact hdue.2

theorem records_eq (h : barrier.SameBut other) (redactedArguments : Value)
    (riskReasons : List String) :
    other.records redactedArguments riskReasons =
      barrier.records redactedArguments riskReasons := by
  have hid : other.step.id = barrier.step.id := (congrArg StepDefinition.id h.step).trans rfl
  rw [records, records, flatMap_invalidationRecords, h.requests, ← flatMap_invalidationRecords,
    h.state, h.revision, barrier.runId_run, other.runId_run,
    creationRecords_congr h.state h.revision hid h.tool]

end SameBut

/-- A barrier that writes something has arguments that can be shown. -/
theorem exists_snapshot_of_written (h : barrier.written ≠ []) :
    barrier.Due ∧
      ∃ snapshot, approvalSnapshot cfg barrier.definition barrier.step = .ok snapshot := by
  by_contra hnot
  exact h (barrier.written_eq_nil fun hdue snapshot hsnapshot =>
    hnot ⟨hdue, snapshot, hsnapshot⟩)

theorem presentable_of_written (barrier : Barrier cfg runId)
    (hdescriptor : cfg.registry.descriptorFor barrier.step.tool.name barrier.step.tool.version =
      .ok descriptor)
    (hlost : containsUnavailableSecretRef barrier.step.arguments = false)
    (h : barrier.written ≠ []) :
    presentable cfg barrier.step.tool barrier.step.arguments = true := by
  obtain ⟨_, snapshot, hsnapshot⟩ := exists_snapshot_of_written h
  exact ((approvalSnapshot_eq_ok_iff hdescriptor hlost).mp hsnapshot).presentable

/-- What one barrier writes the other writes, if its arguments can be shown too and are
redacted to the same. -/
theorem written_eq_of_presentable (hdumps : cfg.runtime.DumpsEveryText)
    (hsame : barrier.SameBut other)
    (hdescriptor : cfg.registry.descriptorFor barrier.step.tool.name barrier.step.tool.version =
      .ok descriptor)
    (hredacted : ∀ coerced coerced',
      cfg.registry.coerceArguments cfg.runtime barrier.step.tool.name barrier.step.tool.version
        barrier.step.arguments = .ok coerced →
      cfg.registry.coerceArguments cfg.runtime barrier.step.tool.name barrier.step.tool.version
        other.step.arguments = .ok coerced' →
      redact cfg.runtime descriptor.sensitiveArgumentPaths coerced =
        redact cfg.runtime descriptor.sensitiveArgumentPaths coerced')
    (hlost : containsUnavailableSecretRef barrier.step.arguments = false)
    (hlost' : containsUnavailableSecretRef other.step.arguments = false)
    (hpresentable : presentable cfg barrier.step.tool other.step.arguments = true)
    (hwritten : barrier.written ≠ []) : other.written = barrier.written := by
  obtain ⟨hdue, snapshot, hsnapshot⟩ := exists_snapshot_of_written hwritten
  obtain ⟨snapshot', hfresh', harguments, hreasons⟩ :=
    ((approvalSnapshot_eq_ok_iff hdescriptor hlost).mp hsnapshot).exists_alike hdumps hsame.step
      hredacted hpresentable other.definition
  have hsnapshot' : approvalSnapshot cfg other.definition other.step = .ok snapshot' :=
    (approvalSnapshot_eq_ok_iff (hsame.tool ▸ hdescriptor) hlost').mpr hfresh'
  rw [barrier.written_eq_records hdue hsnapshot,
    other.written_eq_records (hsame.due hdue) hsnapshot', harguments, hreasons, hsame.records_eq]

end Barrier

/-- For argument mappings that differ in what is sensitive only, and from which no secret
reference was lost, the barriers write the same requests and approval events, apart from
digests, identifiers and instants, if nothing is to be written at all, or both mappings are
canonical JSON that the tool accepts, or neither is; where a request is written, only then. -/
theorem approval_reveals_nothing_iff {cfg : Deployment} {runId : String}
    (hdumps : cfg.runtime.DumpsEveryText) (barrier other : Barrier cfg runId)
    (hsame : barrier.SameBut other) {descriptor : ToolDescriptor}
    (hdescriptor : cfg.registry.descriptorFor barrier.step.tool.name barrier.step.tool.version =
      .ok descriptor)
    (hmodel : descriptor.inputModel.Fieldwise cfg.runtime descriptor.sensitiveArgumentPaths)
    {arguments arguments' : List (Value × Value)}
    (harguments : barrier.step.arguments.entries? = some arguments)
    (harguments' : other.step.arguments.entries? = some arguments')
    (halike : Value.Alike cfg.runtime descriptor.sensitiveArgumentPaths [] (.dict arguments)
      (.dict arguments'))
    (hlost : containsUnavailableSecretRef barrier.step.arguments = false)
    (hlost' : containsUnavailableSecretRef other.step.arguments = false) :
    ((barrier.Due → presentable cfg barrier.step.tool barrier.step.arguments =
        presentable cfg barrier.step.tool other.step.arguments) →
      barrier.written = other.written) ∧
    (barrier.written ≠ [] → barrier.written = other.written →
      presentable cfg barrier.step.tool barrier.step.arguments =
        presentable cfg barrier.step.tool other.step.arguments) := by
  -- what is shown of the arguments is the same in both
  have hredacted (coerced coerced' : Value)
      (hcoerced : cfg.registry.coerceArguments cfg.runtime barrier.step.tool.name
        barrier.step.tool.version barrier.step.arguments = .ok coerced)
      (hcoerced' : cfg.registry.coerceArguments cfg.runtime barrier.step.tool.name
        barrier.step.tool.version other.step.arguments = .ok coerced') :
      redact cfg.runtime descriptor.sensitiveArgumentPaths coerced =
        redact cfg.runtime descriptor.sensitiveArgumentPaths coerced' :=
    (hmodel _ _ _ _ halike (coerceArguments_eq_ok hdescriptor harguments hcoerced)
      (coerceArguments_eq_ok hdescriptor harguments' hcoerced')).redactValue_eq
  -- a barrier writes only what can be presented
  have hpresentable := barrier.presentable_of_written hdescriptor hlost
  have hpresentable' := other.presentable_of_written (hsame.tool ▸ hdescriptor) hlost'
  rw [hsame.tool] at hpresentable'
  refine ⟨fun hcondition => ?_, fun hwritten heq => ?_⟩
  · by_cases hdue : barrier.Due
    case neg =>
      rw [barrier.written_eq_nil fun h => absurd h hdue,
        other.written_eq_nil fun h => absurd (hsame.symm.due h) hdue]
    have hboth := hcondition hdue
    by_cases hwritten : barrier.written = []
    · by_contra hne
      -- one writes nothing: then the other must not write either
      have hwritten' : other.written ≠ [] := fun hnil => hne (hwritten.trans hnil.symm)
      refine hne (Barrier.written_eq_of_presentable hdumps hsame.symm (hsame.tool ▸ hdescriptor)
        ?_ hlost' hlost ?_ hwritten')
      · rw [hsame.tool]
        exact fun coerced coerced' hcoerced hcoerced' =>
          (hredacted coerced' coerced hcoerced' hcoerced).symm
      · rw [hsame.tool, hboth]
        exact hpresentable' hwritten'
    · exact (Barrier.written_eq_of_presentable hdumps hsame hdescriptor hredacted hlost hlost'
        (hboth ▸ hpresentable hwritten) hwritten).symm
  -- what both write, both can present
  · rw [hpresentable hwritten, hpresentable' (heq ▸ hwritten)]

namespace Sample

/-- A model of credentials, which takes every value. -/
def credentials : ModelType where
  modelFields := ["account", "password", "token"]
  modelValidate payload :=
    .ok (.model "Credentials" (payload.map fun entry => (textOf entry.1, entry.2)))

theorem credentials_fieldwise : credentials.Fieldwise runtime [["account"]] := by
  intro payload payload' _ _ halike hmodel hmodel'
  obtain rfl := Except.ok.inj hmodel
  obtain rfl := Except.ok.inj hmodel'
  generalize hpath : ([] : List String) = path at halike
  cases halike with
  | same => exact .same _ _
  | declared hmem =>
      subst hpath
      exact absurd hmem (by decide)
  | mapping ha hb hkeys hentries =>
      subst hpath
      obtain rfl := Option.some.inj ha
      obtain rfl := Option.some.inj hb
      refine .model ?_ fun i name x y hx hy hname => ?_
      · have htexts := congrArg (List.map textOf) hkeys
        rw [List.map_map, List.map_map] at htexts ⊢
        exact htexts
      · rw [List.getElem?_map, Option.map_eq_some_iff] at hx hy
        obtain ⟨⟨key, value⟩, hkey, hx⟩ := hx
        obtain ⟨⟨key', value'⟩, hkey', hy⟩ := hy
        obtain ⟨rfl, rfl⟩ := Prod.mk.inj hx
        obtain ⟨_, rfl⟩ := Prod.mk.inj hy
        have hsame : (payload.map Prod.fst)[i]? = (payload'.map Prod.fst)[i]? := by rw [hkeys]
        rw [List.getElem?_map, List.getElem?_map, hkey, hkey'] at hsame
        obtain rfl : key = key' := Option.some.inj hsame
        exact hentries i key value value' hkey hkey' hname

/-- A tool that logs in, of which the account is declared sensitive. -/
def loginTool : ToolDescriptor :=
  { tool "login" credentials .high .supported with sensitiveArgumentPaths := [["account"]] }

def vault : Deployment where
  __ := deployment
  registry.tools name version :=
    if name = "login" ∧ version = "1" then some loginTool else none

def loginStep (arguments : List (Value × Value)) : StepDefinition where
  id := "s"
  tool := ⟨"login", "1"⟩
  arguments := .mappingProxy arguments
  retry := default

def loginDefinition (arguments : List (Value × Value)) : WorkflowDefinition where
  definitionId := "d"
  version := 1
  steps := [loginStep arguments]
  digest := (calculateDigest runtime "d" 1 [loginStep arguments]).toOption.getD ""
  steps_sorted := List.pairwise_singleton _ _
  dependencies_known := by simp [loginStep]
  acyclic := ⟨fun _ => 0, by simp [loginStep]⟩

def loginRun (arguments : List (Value × Value)) : WorkflowRun where
  runId := "r"
  definitionId := "d"
  definitionVersion := 1
  definitionDigest := (loginDefinition arguments).digest
  state := .running
  revision := 1

def loginStore (arguments : List (Value × Value)) : MemoryStore where
  definitions := KeyedTable.empty.put (loginDefinition arguments)
  runs := KeyedTable.empty.put (loginRun arguments)
  steps := KeyedTable.empty.put { runId := "r", stepId := "s", state := .ready, revision := 1 }

/-- The barrier before the step of these arguments. -/
def loginBarrier (arguments : List (Value × Value)) : Barrier vault "r" where
  store := loginStore arguments
  ownedFutures := []
  run := loginRun arguments
  definition := loginDefinition arguments
  step := loginStep arguments
  newId := "n"
  occurredAt := 5
  hrun := KeyedTable.get_put_self _ _
  hdefinition := KeyedTable.get_put_self _ _
  hstep := by simp [loginDefinition, loginStep]
  hnew _ hrequest := absurd hrequest List.not_mem_nil

theorem sameBut_loginBarrier (arguments arguments' : List (Value × Value)) :
    (loginBarrier arguments).SameBut (loginBarrier arguments') where
  state := rfl
  revision := rfl
  requests := rfl
  step := rfl
  work := rfl

/-- Credentials, of which the token is as the store gives it back. -/
def storedCredentials (account password : String) (token : Value) : List (Value × Value) :=
  [(.str "account", .str account), (.str "password", .str password), (.str "token", token)]

theorem alike_credentials (account account' password password' : String)
    (token token' : Value) :
    Value.Alike runtime [["account"]] [] (.dict (storedCredentials account password token))
      (.dict (storedCredentials account' password' token')) := by
  refine .mapping rfl rfl rfl fun i key a b ha hb hkey => ?_
  match i with
  | 0 =>
      obtain ⟨rfl, rfl⟩ := Prod.mk.inj (Option.some.inj ha)
      exact .declared (by decide)
  | 1 =>
      obtain ⟨rfl, rfl⟩ := Prod.mk.inj (Option.some.inj ha)
      exact absurd hkey (by decide +kernel)
  | 2 =>
      obtain ⟨rfl, rfl⟩ := Prod.mk.inj (Option.some.inj ha)
      exact absurd hkey (by decide +kernel)
  | i + 3 => cases ha

theorem runtime_dumpsEveryText : runtime.DumpsEveryText := by
  intro key text text' fields encoded h
  simp only [runtime, Value.ofFields, List.map_cons, jsonText, jsonEntries] at h ⊢
  cases hmembers : jsonEntries (fields.map fun field => (.str field.1, field.2)) with
  | none => simp [hmembers] at h
  | some members => exact ⟨_, rfl⟩

/-- The password that a request shows. -/
def shownPassword : ApprovalRecord → Option String
  | .request request =>
      match request.redactedArguments.entries?.bind (Value.lookup "password") with
      | some (.str text) => some text
      | _ => none
  | .event _ => none

end Sample

/-- Without lost references, other credentials show the same. -/
theorem approval_reveals_nothing_iff_fresh :
    (Sample.loginBarrier (Sample.storedCredentials "ann" "hunter2" (.str "t"))).written ≠ [] ∧
    (Sample.loginBarrier (Sample.storedCredentials "ann" "hunter2" (.str "t"))).written =
      (Sample.loginBarrier (Sample.storedCredentials "bob" "letmein" (.str "u"))).written := by
  refine ⟨fun hnil => ?_, ?_⟩
  · have hlength : (Sample.loginBarrier
        (Sample.storedCredentials "ann" "hunter2" (.str "t"))).written.length = 2 := by
      decide +kernel
    rw [hnil] at hlength
    cases hlength
  · exact (@approval_reveals_nothing_iff Sample.vault "r" Sample.runtime_dumpsEveryText _ _
      (Sample.sameBut_loginBarrier _ _) Sample.loginTool rfl Sample.credentials_fieldwise _ _
      rfl rfl
      (Sample.alike_credentials "ann" "bob" "hunter2" "letmein" (.str "t") (.str "u"))
      (by decide +kernel) (by decide +kernel)).1 fun _ => by decide +kernel

/-- With a token that was lost, the password is shown. -/
theorem lost_reference_reveals_password :
    (Sample.loginBarrier
      (Sample.storedCredentials "ann" "hunter2" .unavailableSecretRef)).SameBut
        (Sample.loginBarrier (Sample.storedCredentials "ann" "letmein" .unavailableSecretRef)) ∧
    Value.Alike Sample.runtime [["account"]] []
      (.dict (Sample.storedCredentials "ann" "hunter2" .unavailableSecretRef))
      (.dict (Sample.storedCredentials "ann" "letmein" .unavailableSecretRef)) ∧
    (Sample.loginBarrier
      (Sample.storedCredentials "ann" "hunter2" .unavailableSecretRef)).written ≠
        (Sample.loginBarrier
          (Sample.storedCredentials "ann" "letmein" .unavailableSecretRef)).written := by
  refine ⟨Sample.sameBut_loginBarrier _ _, Sample.alike_credentials .., fun hsame => ?_⟩
  -- Both show the password as it stands.
  have hshown : (Sample.loginBarrier (Sample.storedCredentials "ann" "hunter2"
      .unavailableSecretRef)).written.map Sample.shownPassword = [some "hunter2", none] := by
    decide +kernel
  have hshown' : (Sample.loginBarrier (Sample.storedCredentials "ann" "letmein"
      .unavailableSecretRef)).written.map Sample.shownPassword = [some "letmein", none] := by
    decide +kernel
  rw [hsame, hshown'] at hshown
  exact absurd hshown (by decide)

end ChangePilot
