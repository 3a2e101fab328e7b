import ChangePilot.Ports.Tools
import Mathlib.Logic.Function.Basic

/-!
# The budgeted model gateways

Both gateways stand in front of another one, answer repeated requests from a cache,
retry what fails for a moment, and count calls, tokens and costs against a budget.
`BudgetedModelGateway` runs one request at a time.  The requests of
`AsyncBudgetedModelGateway` are tasks that leave each other the floor where they
await the inner gateway or sleep before a retry.

What the inner gateway answers is an input.  Next to the state of a gateway goes
what it asked of the inner one, which no definition looks at.
-/

namespace ChangePilot

/-! ## Requests and responses -/

inductive ModelRole where
  | system | user | assistant
  deriving DecidableEq, Repr

def ModelRole.value : ModelRole → String
  | system => "system"
  | user => "user"
  | assistant => "assistant"

structure ModelMessage where
  role : ModelRole
  content : String

structure ModelRequest where
  requestId : String
  messages : List ModelMessage
  responseSchemaName : String
  responseSchema : List (String × Value)
  promptVersion : String
  knowledgeSnapshotDigest : String
  maxOutputTokens : ℕ

/-- `model_dump(mode="json")`. -/
def ModelRequest.modelDump (request : ModelRequest) : Value :=
  .ofFields [
    ("request_id", .str request.requestId),
    ("messages", .list (request.messages.map fun message =>
      .ofFields [("role", .str message.role.value), ("content", .str message.content)])),
    ("response_schema_name", .str request.responseSchemaName),
    ("response_schema", .ofFields request.responseSchema),
    ("prompt_version", .str request.promptVersion),
    ("knowledge_snapshot_digest", .str request.knowledgeSnapshotDigest),
    ("max_output_tokens", .int request.maxOutputTokens)]

structure ModelUsage where
  inputTokens : ℕ
  outputTokens : ℕ
  totalTokens : ℕ
  deriving DecidableEq

structure ModelResponse where
  payload : List (String × Value)
  usage : ModelUsage
  model : String
  latencyMs : ℕ
  finishReason : String
  cacheHit : Bool := false

/-- How a call of the inner gateway ends: with a response, with a
`TransientModelError`, or with another exception. -/
inductive InnerEnd where
  | response (response : ModelResponse)
  | transient
  | failed (error : Error)

/-- The exceptions of `generate`. -/
inductive ModelError where
  | budgetExceeded (message : String)
  | transient
  | other (error : Error)

/-! ## The gateway -/

structure ModelBudget where
  maxCalls : ℕ
  maxTotalTokens : ℕ
  maxEstimatedCostMicrounits : Option ℕ := none
  maxCalls_pos : 0 < maxCalls := by decide
  maxTotalTokens_pos : 0 < maxTotalTokens := by decide
  maxCost_pos : ∀ cost ∈ maxEstimatedCostMicrounits, 0 < cost := by simp

structure ModelPricing where
  inputMicrounitsPerMillionTokens : ℕ := 0
  outputMicrounitsPerMillionTokens : ℕ := 0

structure RecordedModelUsage where
  requestDigest : String
  model : String
  latencyMs : ℕ
  inputTokens : ℕ
  outputTokens : ℕ
  totalTokens : ℕ
  cacheHit : Bool
  retryCount : ℕ
  estimatedCostMicrounits : ℕ

/-- What a gateway is built with, apart from the inner gateway. -/
structure GatewayConfig where
  runtime : Runtime
  budget : ModelBudget
  cacheNamespace : String
  pricing : ModelPricing := {}
  maxRetries : ℕ := 1

/-- The fields of a gateway that change, with its cache and its usage records. -/
structure GatewayState where
  calls : ℕ := 0
  totalTokens : ℕ := 0
  estimatedCostMicrounits : ℕ := 0
  cache : String → Option ModelResponse := fun _ => none
  usage : List RecordedModelUsage := []

/-- `_estimate_cost`. -/
def ModelPricing.estimateCost (pricing : ModelPricing) (response : ModelResponse) : ℕ :=
  (response.usage.inputTokens * pricing.inputMicrounitsPerMillionTokens +
    response.usage.outputTokens * pricing.outputMicrounitsPerMillionTokens + 999999) / 1000000

namespace GatewayConfig

variable (config : GatewayConfig)

def requestDigest (request : ModelRequest) : Except Error String := do
  let encoded ← config.runtime.jsonDumps true <| .ofFields [
    ("namespace", .str config.cacheNamespace), ("request", request.modelDump)]
  return (config.runtime.sha256 encoded).val

/-- `_record`. -/
def record (requestDigest : String) (response : ModelResponse) (retryCount : ℕ)
    (state : GatewayState) : GatewayState :=
  { state with
    usage := state.usage ++ [{
      requestDigest
      model := response.model
      latencyMs := response.latencyMs
      inputTokens := response.usage.inputTokens
      outputTokens := response.usage.outputTokens
      totalTokens := response.usage.totalTokens
      cacheHit := response.cacheHit
      retryCount
      estimatedCostMicrounits :=
        if response.cacheHit then 0 else config.pricing.estimateCost response }] }

/-- The answer to a request from the cache, if it is there. -/
def fromCache (requestDigest : String) (state : GatewayState) :
    Option (ModelResponse × GatewayState) :=
  (state.cache requestDigest).map fun cached =>
    let response := { cached with cacheHit := true }
    (response, config.record requestDigest response 0 state)

/-- The checks of a response against the budget, and what is recorded of it. -/
def settle (requestDigest : String) (response : ModelResponse) (retryCount : ℕ)
    (state : GatewayState) : Except ModelError ModelResponse × GatewayState :=
  let projectedTokens := state.totalTokens + response.usage.totalTokens
  if config.budget.maxTotalTokens < projectedTokens then
    (.error (.budgetExceeded "model token budget exhausted"), state)
  else
    let projectedCost := state.estimatedCostMicrounits + config.pricing.estimateCost response
    if config.budget.maxEstimatedCostMicrounits.any fun cost => cost < projectedCost then
      (.error (.budgetExceeded "model cost budget exhausted"), state)
    else
      (.ok response, config.record requestDigest response retryCount { state with
        totalTokens := projectedTokens
        estimatedCostMicrounits := projectedCost
        cache := Function.update state.cache requestDigest (some response) })

end GatewayConfig

/-! ## One request at a time -/

/-- A gateway with the answers of the inner gateway. -/
structure GatewayRun where
  state : GatewayState
  answers : List InnerEnd

/-- A request, and how the calls end that it leads to, one after another. -/
structure GatewayTurn where
  request : ModelRequest
  inner : ℕ → InnerEnd

/-- A call of the inner gateway, which is counted before it is made. -/
def GatewayRun.call (run : GatewayRun) (answer : InnerEnd) : GatewayRun :=
  ⟨{ run.state with calls := run.state.calls + 1 }, run.answers ++ [answer]⟩

namespace BudgetedModelGateway

variable (config : GatewayConfig)

/-- The loop around the inner gateway, with the number of retries that are left. -/
def callInner (inner : ℕ → InnerEnd) (retriesLeft retryCount : ℕ) (run : GatewayRun) :
    Except ModelError (ModelResponse × ℕ) × GatewayRun :=
  let run := run.call (inner retryCount)
  match inner retryCount with
  | .response response => (.ok (response, retryCount), run)
  | .failed error => (.error (.other error), run)
  | .transient =>
      match retriesLeft with
      | 0 => (.error .transient, run)
      | retriesLeft + 1 =>
          if config.budget.maxCalls ≤ run.state.calls then
            (.error (.budgetExceeded "model call budget exhausted during retry"), run)
          else callInner inner retriesLeft (retryCount + 1) run

def generate (turn : GatewayTurn) (run : GatewayRun) :
    Except ModelError ModelResponse × GatewayRun :=
  match config.requestDigest turn.request with
  | .error error => (.error (.other error), run)
  | .ok requestDigest =>
      match config.fromCache requestDigest run.state with
      | some (response, state) => (.ok response, { run with state })
      | none =>
          if config.budget.maxCalls ≤ run.state.calls then
            (.error (.budgetExceeded "model call budget exhausted"), run)
          else
            match callInner config turn.inner config.maxRetries 0 run with
            | (.error error, run) => (.error error, run)
            | (.ok (response, retryCount), run) =>
                let settled := config.settle requestDigest response retryCount run.state
                (settled.1, { run with state := settled.2 })

/-- The gateway after a request, whether it was answered or not. -/
def next (run : GatewayRun) (turn : GatewayTurn) : GatewayRun := (generate config turn run).2

end BudgetedModelGateway

/-! ## Concurrent requests -/

/-- A task that awaits the inner gateway, sleeps before a retry, or has ended. -/
inductive ModelTask where
  | calling (requestDigest : String) (retryCount : ℕ)
  | sleeping (requestDigest : String) (retryCount : ℕ)
  | done (result : Except ModelError ModelResponse)

/-- A gateway with the tasks of its requests and the number of inner calls made. -/
structure AsyncGatewayRun where
  state : GatewayState
  tasks : List ModelTask
  innerCalls : ℕ

/-- What happens next: a request is made, the inner gateway answers a task, a task
wakes up, or an awaiting task is cancelled. -/
inductive AsyncModelEvent where
  | generate (request : ModelRequest)
  | answered (task : ℕ) (answer : InnerEnd)
  | woken (task : ℕ)
  | cancelled (task : ℕ) (error : Error)

namespace AsyncBudgetedModelGateway

variable (config : GatewayConfig)

/-- A request up to its first await. -/
def begin (request : ModelRequest) (run : AsyncGatewayRun) : AsyncGatewayRun :=
  let ended (result : Except ModelError ModelResponse) (state : GatewayState) : AsyncGatewayRun :=
    { run with state, tasks := run.tasks ++ [.done result] }
  match config.requestDigest request with
  | .error error => ended (.error (.other error)) run.state
  | .ok requestDigest =>
      match config.fromCache requestDigest run.state with
      | some (response, state) => ended (.ok response) state
      | none =>
          if config.budget.maxCalls ≤ run.state.calls then
            ended (.error (.budgetExceeded "model call budget exhausted")) run.state
          else
            ⟨{ run.state with calls := run.state.calls + 1 },
              run.tasks ++ [.calling requestDigest 0], run.innerCalls + 1⟩

/-- A task from the end of its inner call to its next await. -/
def resume (requestDigest : String) (retryCount : ℕ) (answer : InnerEnd) (state : GatewayState) :
    ModelTask × GatewayState :=
  match answer with
  | .response response =>
      let settled := config.settle requestDigest response retryCount state
      (.done settled.1, settled.2)
  | .failed error => (.done (.error (.other error)), state)
  | .transient =>
      if config.maxRetries ≤ retryCount then (.done (.error .transient), state)
      else if config.budget.maxCalls ≤ state.calls then
        (.done (.error (.budgetExceeded "model call budget exhausted during retry")), state)
      else (.sleeping requestDigest (retryCount + 1), state)

def next (run : AsyncGatewayRun) : AsyncModelEvent → AsyncGatewayRun
  | .generate request => begin config request run
  | .answered task answer =>
      match run.tasks[task]? with
      | some (.calling requestDigest retryCount) =>
          let (resumed, state) := resume config requestDigest retryCount answer run.state
          { run with state, tasks := run.tasks.set task resumed }
      | _ => run
  | .woken task =>
      match run.tasks[task]? with
      | some (.sleeping requestDigest retryCount) =>
          ⟨{ run.state with calls := run.state.calls + 1 },
            run.tasks.set task (.calling requestDigest retryCount), run.innerCalls + 1⟩
      | _ => run
  | .cancelled task error =>
      match run.tasks[task]? with
      | some (.calling _ _) | some (.sleeping _ _) =>
          { run with tasks := run.tasks.set task (.done (.error (.other error))) }
      | _ => run

end AsyncBudgetedModelGateway

end ChangePilot
