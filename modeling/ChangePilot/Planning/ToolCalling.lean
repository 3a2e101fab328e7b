import ChangePilot.Library.Effects
import ChangePilot.Planning.ModelGateway
import Mathlib.Data.List.Sort
import Mathlib.Data.Rat.Floor
import Mathlib.Data.String.Basic

/-!
# Tool calling

`AsyncToolCallingModelGateway` asks a model, runs the tools that it calls, and asks again
with what they answered, for a bounded number of rounds.  The model, the tools and the
clock are given by what they do with the state of what lies outside.  Next to that go the
conversations that were sent, the turns that came back and the tools that were run, which
no definition looks at.
-/

namespace ChangePilot

/-! ## Turns and messages -/

structure ChatToolDefinition where
  name : String
  description : String
  inputSchema : List (String × Value)

structure ChatToolCall where
  toolCallId : String
  name : String
  arguments : List (String × Value)

structure AsyncChatTurn where
  content : Option String := none
  toolCalls : List ChatToolCall := []
  usage : ModelUsage
  model : String
  latencyMs : ℕ
  finishReason : String

/-- A call as it is told to the model, with the JSON text of its arguments. -/
structure FunctionCall where
  id : String
  name : String
  arguments : String
  deriving DecidableEq

/-- A message of a conversation; `assistant` is one with tool calls. -/
inductive ChatMessage where
  | plain (role : ModelRole) (content : String)
  | assistant (content : Option String) (toolCalls : List FunctionCall)
  | tool (toolCallId content : String)
  deriving DecidableEq

/-! ## Tools -/

/-- The exceptions of `generate`. -/
inductive ToolCallingError where
  | permanentModelError (message : String)
  | raised (error : Error)

/-- The exceptions of a tool: those that are expected of it, with their text, and others. -/
inductive ToolFailure where
  | expected (text : String)
  | raised (error : Error)

structure ReadOnlyTool (ω : Type) where
  definition : ChatToolDefinition
  inputModel : ModelType
  execute : Value → ω → Except ToolFailure (List (String × Value)) × ω

structure ToolCallTrace where
  round : ℕ
  toolCallId : String
  toolName : String
  status : String
  latencyMs : ℕ
  arguments : List (String × Value)
  outputSummary : String

/-- The tools, under different names. -/
structure ReadOnlyToolRegistry (ω : Type) where
  tools : List (ReadOnlyTool ω) := []
  names_nodup : (tools.map fun tool => tool.definition.name).Nodup

namespace ReadOnlyToolRegistry

variable {ω : Type} (registry : ReadOnlyToolRegistry ω)

def definitions : List ChatToolDefinition :=
  (registry.tools.map ReadOnlyTool.definition).insertionSort fun a b => a.name ≤ b.name

def resolve (runtime : Runtime) (name : String) : Except ToolCallingError (ReadOnlyTool ω) :=
  match registry.tools.find? fun tool => tool.definition.name = name with
  | some tool => .ok tool
  | none =>
      .error (.permanentModelError s!"model requested unregistered tool {runtime.repr name}")

end ReadOnlyToolRegistry

/-! ## The gateway -/

/-- What `json.loads` answers. -/
inductive LoadedJson where
  | object (fields : List (String × Value))
  | other (value : Value)

/-- How `json.loads` fails. -/
inductive LoadFailure where
  | jsonDecodeError
  | raised (error : Error)

/-- A tool that was run for a call, on what its input model made of the arguments. -/
structure ToolExecution where
  call : ChatToolCall
  validated : Value

/-- What lies outside of a gateway and the traces it keeps, with what it has done. -/
structure ToolCallingWorld (ω : Type) where
  outside : ω
  traces : List ToolCallTrace := []
  sent : List (List ChatMessage) := []
  turns : List AsyncChatTurn := []
  executed : List ToolExecution := []

structure AsyncToolCallingModelGateway (ω : Type) where
  runtime : Runtime
  complete : List ChatMessage → List ChatToolDefinition → ℕ → ω →
    Except ToolCallingError AsyncChatTurn × ω
  tools : ReadOnlyToolRegistry ω
  maxToolRounds : ℕ := 2
  /-- `json.dumps(value, ensure_ascii=False, sort_keys=True)` -/
  dumpJson : Value → Except Error String
  loadJson : String → Except LoadFailure LoadedJson
  /-- `time.perf_counter()`, in seconds -/
  perfCounter : ω → ℚ × ω

namespace AsyncToolCallingModelGateway

variable {ω : Type} (gateway : AsyncToolCallingModelGateway ω)

abbrev Call (ω α : Type) : Type := Effect (ToolCallingWorld ω) ToolCallingError α

/-- `raise PermanentModelError(message)` -/
def permanent {α : Type} (message : String) : Call ω α := .fail (.permanentModelError message)

def dumps (value : Value) : Call ω String :=
  .read fun _ => (gateway.dumpJson value).mapError .raised

def readClock : Call ω ℚ := fun w =>
  let (now, outside) := gateway.perfCounter w.outside
  (.ok now, { w with outside })

/-- The whole milliseconds since the clock was read, none if it has gone back. -/
def latencySince (started : ℚ) : Call ω ℕ := do
  return ⌊((← gateway.readClock) - started) * 1000⌋.toNat

def trace (entry : ToolCallTrace) : Call ω Unit := .change fun w =>
  .ok { w with traces := w.traces ++ [entry] }

/-- The first 500 characters. -/
def summary (text : String) : String := String.ofList (text.toList.take 500)

/-- `model_validate` of the arguments, and `execute` of what it gives. -/
def attempt (tool : ReadOnlyTool ω) (call : ChatToolCall) :
    Call ω (Except ToolFailure (List (String × Value))) := fun w =>
  match tool.inputModel.modelValidate
      (call.arguments.map fun (name, value) => (.str name, value)) with
  | .error text => (.ok (.error (.expected text)), w)
  | .ok validated =>
      let (output, outside) := tool.execute validated w.outside
      (.ok output, { w with outside, executed := w.executed ++ [⟨call, validated⟩] })

/-- `_execute_tool` -/
def executeTool (roundNumber : ℕ) (call : ChatToolCall) : Call ω (List (String × Value)) := do
  let tool ← .read fun _ => gateway.tools.resolve gateway.runtime call.name
  let started ← gateway.readClock
  match ← attempt tool call with
  | .error (.raised error) => .fail (.raised error)
  | .error (.expected text) =>
      trace {
        round := roundNumber, toolCallId := call.toolCallId, toolName := call.name
        status := "failed", latencyMs := ← gateway.latencySince started
        arguments := call.arguments, outputSummary := summary text }
      permanent s!"read-only tool {gateway.runtime.repr call.name} failed"
  | .ok output =>
      let latencyMs ← gateway.latencySince started
      trace {
        round := roundNumber, toolCallId := call.toolCallId, toolName := call.name
        status := "succeeded", latencyMs
        arguments := call.arguments
        outputSummary := summary (← gateway.dumps (.ofFields output)) }
      return output

/-- The loop over the calls of a turn, and the messages with what the tools answered. -/
def executeCalls (roundNumber : ℕ) : List ChatToolCall → List ChatMessage → Call ω (List ChatMessage)
  | [], messages => return messages
  | call :: rest, messages => do
      let output ← gateway.executeTool roundNumber call
      let content ← gateway.dumps (.ofFields output)
      executeCalls roundNumber rest (messages ++ [.tool call.toolCallId content])

/-- A call with its arguments as a JSON text. -/
def functionCall (call : ChatToolCall) : Call ω FunctionCall := do
  return ⟨call.toolCallId, call.name, ← gateway.dumps (.ofFields call.arguments)⟩

def functionCalls : List ChatToolCall → Call ω (List FunctionCall)
  | [] => return []
  | call :: rest => do
      let first ← gateway.functionCall call
      return first :: (← functionCalls rest)

/-- A turn of the model. -/
def ask (messages : List ChatMessage) (maxOutputTokens : ℕ) : Call ω AsyncChatTurn := fun w =>
  match gateway.complete messages gateway.tools.definitions maxOutputTokens w.outside with
  | (.ok turn, outside) =>
      (.ok turn, { w with outside, sent := w.sent ++ [messages], turns := w.turns ++ [turn] })
  | (.error error, outside) => (.error error, { w with outside, sent := w.sent ++ [messages] })

/-- What has been used so far. -/
structure Totals where
  usage : ModelUsage := ⟨0, 0, 0⟩
  latencyMs : ℕ := 0

def Totals.add (totals : Totals) (turn : AsyncChatTurn) : Totals where
  usage := {
    inputTokens := totals.usage.inputTokens + turn.usage.inputTokens
    outputTokens := totals.usage.outputTokens + turn.usage.outputTokens
    totalTokens := totals.usage.totalTokens + turn.usage.totalTokens }
  latencyMs := totals.latencyMs + turn.latencyMs

/-- The response of a turn without tool calls. -/
def finish (turn : AsyncChatTurn) (totals : Totals) : Call ω ModelResponse :=
  match turn.content.getD "" with
  | "" => permanent "model returned neither JSON content nor tool calls"
  | content =>
      match gateway.loadJson content with
      | .error .jsonDecodeError => permanent "model returned invalid JSON after tool calling"
      | .error (.raised error) => .fail (.raised error)
      | .ok (.other _) => permanent "model JSON response must be an object"
      | .ok (.object payload) => return {
          payload, usage := totals.usage, model := turn.model
          latencyMs := totals.latencyMs, finishReason := turn.finishReason }

/-- The rounds from one on, as many as are left. -/
def rounds (maxOutputTokens : ℕ) : (left roundNumber : ℕ) → List ChatMessage → Totals →
    Call ω ModelResponse
  | 0, _, _, _ => permanent "model did not produce a final plan"
  | left + 1, roundNumber, messages, totals => do
      let turn ← gateway.ask messages maxOutputTokens
      if turn.toolCalls = [] then gateway.finish turn (totals.add turn)
      else if gateway.maxToolRounds < roundNumber then
        permanent "native tool-calling round limit exceeded"
      else
        let calls ← gateway.functionCalls turn.toolCalls
        let messages ← gateway.executeCalls roundNumber turn.toolCalls
          (messages ++ [.assistant turn.content calls])
        rounds maxOutputTokens left (roundNumber + 1) messages (totals.add turn)

def generate (request : ModelRequest) : Call ω ModelResponse :=
  gateway.rounds request.maxOutputTokens (gateway.maxToolRounds + 1) 1
    (request.messages.map fun message => .plain message.role message.content) {}

end AsyncToolCallingModelGateway

end ChangePilot
