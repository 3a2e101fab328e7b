import ChangePilot.Library.Effects
import ChangePilot.Library.Runs
import ChangePilot.Planning.Mapping
import ChangePilot.Planning.Persistence

/-!
# The planning service

A session is started with a request, its request is changed by answers, and its latest
plan is prepared.  Starting and answering run the planning graph and save what comes out
of it.  Every call of the repository is a transaction of its own and may raise, so what
was written before stays written.
-/

namespace ChangePilot

/-! ## Answers -/

namespace ChangeRequest

/-- `request.model_dump(mode="python")` -/
def pythonDump (request : ChangeRequest) : List (String × Value) := [
  ("service_id", modelDump.optional request.serviceId),
  ("current_version", modelDump.optional request.currentVersion),
  ("target_version", modelDump.optional request.targetVersion),
  ("pull_request_url", modelDump.optional request.pullRequestUrl),
  ("change_summary", .str request.changeSummary),
  ("success_conditions", .tuple (request.successConditions.map .str)),
  ("constraints", .tuple (request.constraints.map .str))]

/-- `ChangeRequest.model_fields` -/
def modelFields : List String := [
  "service_id", "current_version", "target_version", "pull_request_url", "change_summary",
  "success_conditions", "constraints"]

/-- A `ValidationError`, which is a `ValueError`. -/
def validationError : PlanningError := .valueError "validation error for ChangeRequest"

variable (runtime : Runtime)

def validateText : Value → Except PlanningError String
  | .str text => if runtime.isBlank text then .error validationError else .ok text
  | _ => .error validationError

def validateOptional : Value → Except PlanningError (Option String)
  | .none => .ok none
  | value => (validateText runtime value).map some

/-- In strict mode only a tuple is a tuple. -/
def validateTexts : Value → Except PlanningError (List String)
  | .tuple items => items.mapM (validateText runtime)
  | _ => .error validationError

/-- `ChangeRequest.model_validate(payload)` -/
def modelValidate (payload : List (String × Value)) : Except PlanningError ChangeRequest := do
  if payload.any fun entry => entry.1 ∉ modelFields then throw validationError
  return {
    serviceId := ← validateOptional runtime (field "service_id" .none)
    currentVersion := ← validateOptional runtime (field "current_version" .none)
    targetVersion := ← validateOptional runtime (field "target_version" .none)
    pullRequestUrl := ← validateOptional runtime (field "pull_request_url" .none)
    changeSummary := ← validateText runtime (field "change_summary" .none)
    successConditions := ← validateTexts runtime (field "success_conditions" (.tuple []))
    constraints := ← validateTexts runtime (field "constraints" (.tuple [])) }
where
  field (name : String) (default : Value) : Value := (payload.lookup name).getD default

/-- The value of an answer; a single text stands for a tuple of one. -/
def answerValue (field : String) (value : Value) : Value :=
  match value with
  | .str text =>
      if field ∈ ["success_conditions", "constraints"] then .tuple [.str text] else value
  | _ => value

/-- The loop over the answers. -/
def assignAnswers (payload : List (String × Value)) :
    List (String × Value) → Except PlanningError (List (String × Value))
  | [] => .ok payload
  | (field, value) :: rest =>
      if field ∈ modelFields then
        assignAnswers (Value.assign payload field (answerValue field value)) rest
      else .error (.valueError s!"unknown clarification field '{field}'")

/-- The request that the answers make of one. -/
def answered (request : ChangeRequest) (answers : List (String × Value)) :
    Except PlanningError ChangeRequest := do
  modelValidate runtime (← assignAnswers request.pythonDump answers)

end ChangeRequest

/-! ## The service -/

inductive RepositoryCall where
  | createSession | getRequest | updateRequest | nextAttemptNumber | nextPlanVersion | saveAttempt
  | savePlan | getLatestPlan | getLatestResult | bindPreparedWorkflow
  deriving DecidableEq, Repr

/-- What a service and the ingestion next to it are built with, apart from the retriever and
the model. -/
structure PlanningService (ε σ ρ : Type) where
  runtime : Runtime
  limits : ChunkLimits := {}
  nodes : PlanningNodes
  repository : PlanningRepository ρ
  knowledge : KnowledgeStore ε σ
  mapper : WorkflowDefinitionMapper

/-- What a call of the service meets: the searches and the model as they answer during the
call, what the repository raises instead of doing a call, and the next identifier. -/
structure PlanningInputs (γ : Type) where
  retriever : HybridRetriever
  model : PlanningModel γ
  modelState : γ
  raises : RepositoryCall → Option PlanningError
  identifier : String

/-- A run of the planning graph that gave a result. -/
structure PlanningRecord (σ : Type) where
  sessionId : String
  request : ChangeRequest
  /-- The knowledge store at the time. -/
  knowledge : σ
  result : PlanningResult

/-- The stores, and next to them the runs of the graph so far, which no definition looks
at. -/
structure PlanningWorld (σ ρ : Type) where
  repository : ρ
  knowledge : σ
  planned : List (PlanningRecord σ) := []

/-- What a ready result is ready with. -/
def requireReady : PlanningResult → Except PlanningError (ChangePlan × List RetrievedEvidence)
  | .planReady _ plan evidence => .ok (plan, evidence)
  | _ => .error (.planValidationError "latest planning result is not ready")

def requirePlan (valid : Prop) [Decidable valid] (message : String) : Except PlanningError Unit :=
  if valid then .ok () else .error (.planValidationError message)

namespace PlanningService

variable {ε σ ρ γ : Type} (service : PlanningService ε σ ρ) (inputs : PlanningInputs γ)

/-- Something that the service does in the world. -/
abbrev Action (σ ρ α : Type) := Effect (PlanningWorld σ ρ) PlanningError α

/-- A call of the repository that reads. -/
def ask {α : Type} (call : RepositoryCall) (read : ρ → Except PlanningError α) : Action σ ρ α :=
  Effect.read fun w =>
    match inputs.raises call with
    | some error => .error error
    | none => read w.repository

/-- A call of the repository that writes. -/
def tell (call : RepositoryCall) (write : ρ → Except PlanningError ρ) : Action σ ρ Unit :=
  Effect.change fun w =>
    match inputs.raises call with
    | some error => .error error
    | none => (write w.repository).map fun repository => { w with repository := repository }

/-- `graph.invoke(...)["result"]` -/
def planningResult (knowledge : σ) (sessionId : String) (request : ChangeRequest)
    (planVersion : ℕ+) : Except PlanningError PlanningResult := do
  let run ← invoke service.nodes inputs.model
    (inputs.retriever.retrieve (service.knowledge.snapshot service.runtime knowledge))
    inputs.modelState {
      sessionId := sessionId, request := request
      planVersion := planVersion, planVersion_pos := planVersion.pos }
  requireKey "result" run.state.result

/-- The result of the graph, which is noted. -/
def plan (sessionId : String) (request : ChangeRequest) (planVersion : ℕ+) :
    Action σ ρ PlanningResult := do
  let result ← Effect.read fun w =>
    service.planningResult inputs w.knowledge sessionId request planVersion
  Effect.change fun w => .ok { w with
    planned := w.planned ++ [⟨sessionId, request, w.knowledge, result⟩] }
  return result

/-- The plan of a result is saved if it is ready. -/
def savePlanOf (sessionId : String) : PlanningResult → Action σ ρ Unit
  | .planReady _ plan _ => tell inputs .savePlan (service.repository.savePlan · sessionId plan)
  | _ => pure ()

/-- `_run` -/
def run (sessionId : String) (request : ChangeRequest) : Action σ ρ PlanningResult := do
  let attemptNo ← ask inputs .nextAttemptNumber (service.repository.nextAttemptNumber · sessionId)
  let planVersion ← ask inputs .nextPlanVersion (service.repository.nextPlanVersion · sessionId)
  let result ← service.plan inputs sessionId request planVersion
  tell inputs .saveAttempt (service.repository.saveAttempt · sessionId attemptNo request result)
  service.savePlanOf inputs sessionId result
  return result

/-- `session_id or self._identifiers()` -/
def selectedId (sessionId : Option String) : String :=
  match sessionId with
  | some given => if given = "" then inputs.identifier else given
  | none => inputs.identifier

def start (request : ChangeRequest) (sessionId : Option String) : Action σ ρ PlanningResult := do
  let selected := selectedId inputs sessionId
  tell inputs .createSession (service.repository.createSession · selected request)
  service.run inputs selected request

def answer (sessionId : String) (answers : List (String × Value)) : Action σ ρ PlanningResult := do
  let current ← ask inputs .getRequest (service.repository.getRequest · sessionId)
  let updated ← Effect.read fun _ => current.answered service.runtime answers
  tell inputs .updateRequest (service.repository.updateRequest · sessionId updated)
  service.run inputs sessionId updated

/-- What `prepare_workflow` makes of what it has read. -/
def prepared (plan latest : ChangePlan) (evidence : List RetrievedEvidence) (knowledge : σ) :
    Except PlanningError PreparedWorkflow := do
  requirePlan (plan.version = latest.version) "latest plan version has changed"
  let snapshot ← service.knowledge.snapshot service.runtime knowledge
  requirePlan (plan.knowledgeSnapshotDigest = snapshot.digest)
    "knowledge changed after planning; create a new plan version"
  service.mapper.prepare plan evidence

def prepareWorkflow (sessionId : String) : Action σ ρ PreparedWorkflow := do
  let plan ← ask inputs .getLatestPlan (service.repository.getLatestPlan · sessionId)
  let result ← ask inputs .getLatestResult (service.repository.getLatestResult · sessionId)
  let (latest, evidence) ← Effect.read fun _ => requireReady result
  let prepared ← Effect.read fun w => service.prepared plan latest evidence w.knowledge
  tell inputs .bindPreparedWorkflow
    (service.repository.bindPreparedWorkflow · sessionId prepared)
  return prepared

end PlanningService

/-! ## Runs -/

/-- The calls that change the world. -/
inductive PlanningOperation (ε : Type) where
  | start (request : ChangeRequest) (sessionId : Option String)
  | answer (sessionId : String) (answers : List (String × Value))
  | prepareWorkflow (sessionId : String)
  | ingest (e : ε) (document : RunbookDocument)

namespace PlanningService

variable {ε σ ρ γ : Type} (service : PlanningService ε σ ρ)

/-- The world after a call. -/
def step (w : PlanningWorld σ ρ) (call : PlanningInputs γ × PlanningOperation ε) :
    PlanningWorld σ ρ :=
  match call.2 with
  | .start request sessionId => (service.start call.1 request sessionId w).2
  | .answer sessionId answers => (service.answer call.1 sessionId answers w).2
  | .prepareWorkflow sessionId => (service.prepareWorkflow call.1 sessionId w).2
  | .ingest e document =>
      { w with
        knowledge := (ChangePilot.ingest service.runtime service.limits service.knowledge e
          w.knowledge document).2 }

/-- The world after calls. -/
def after (w : PlanningWorld σ ρ) (calls : List (PlanningInputs γ × PlanningOperation ε)) :
    PlanningWorld σ ρ := Runs.run service.step w calls

end PlanningService

end ChangePilot
