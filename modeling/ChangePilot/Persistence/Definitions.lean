import ChangePilot.Domain.Acceptance
import ChangePilot.Ports.CanonicalJson

/-!
# Definitions as they are stored

A stored definition is the JSON text of a mapping in which a placeholder stands for each
secret reference; the paths of the placeholders go with the step.  Reading it back runs
`from_mapping` with a catalogue that lets every tool and every argument pass, and puts a
reference that is not available at each of the paths.
-/

namespace ChangePilot

/-! ## Writing -/

def secretReferencePathsKey : String := "_changepilot_unavailable_secret_paths"
def secretReferencePlaceholder : String := "[REDACTED]"

mutual

/-- `_serialize_definition_arguments`: a segment of a path is a key or an index. -/
def serializeDefinitionArguments (path : List Value) : Value → Value × List (List Value)
  | .secretRef _ _ | .unavailableSecretRef => (.str secretReferencePlaceholder, [path])
  | .mappingProxy entries | .dict entries =>
      let (serialized, paths) := serializeDefinitionEntries path entries
      (.dict serialized, paths)
  | .list items | .tuple items =>
      let (serialized, paths) := serializeDefinitionItems path 0 items
      (.list serialized, paths)
  | value => (value, [])

def serializeDefinitionItems (path : List Value) (index : ℕ) :
    List Value → List Value × List (List Value)
  | [] => ([], [])
  | item :: rest =>
      let (encoded, itemPaths) := serializeDefinitionArguments (path ++ [.int index]) item
      let (serialized, paths) := serializeDefinitionItems path (index + 1) rest
      (encoded :: serialized, itemPaths ++ paths)

def serializeDefinitionEntries (path : List Value) :
    List (Value × Value) → List (Value × Value) × List (List Value)
  | [] => ([], [])
  | (key, item) :: rest =>
      let (encoded, itemPaths) := serializeDefinitionArguments (path ++ [key]) item
      let (serialized, paths) := serializeDefinitionEntries path rest
      ((key, encoded) :: serialized, itemPaths ++ paths)

end

/-- One turn of the loop of `_definition_to_mapping`. -/
def stepToMapping (step : StepDefinition) : Value :=
  let (arguments, secretPaths) := serializeDefinitionArguments [] step.arguments
  .ofFields <| [
    ("id", .str step.id),
    ("tool", toolToCanonical step.tool),
    ("arguments", arguments),
    ("depends_on", .list (step.dependsOn.map .str)),
    ("risk", .str step.risk),
    ("retry", .ofFields [
      ("max_attempts", .int step.retry.maxAttempts),
      ("initial_backoff_seconds", .float step.retry.initialBackoffSeconds)]),
    ("compensation_tool", (step.compensationTool.map toolToCanonical).getD .none)] ++
    if secretPaths.isEmpty then []
    else [(secretReferencePathsKey, .list (secretPaths.map .list))]

/-- `_definition_to_mapping` -/
def definitionToMapping (definition : WorkflowDefinition) : Value :=
  .ofFields [
    ("definition_id", .str definition.definitionId),
    ("version", .int definition.version),
    ("steps", .list (definition.steps.map stepToMapping))]

/-! ## The text -/

mutual

/-- The Python value of a JSON value, with lists and dictionaries. -/
def valueOfJson : Json PyScalar → Value
  | .scalar (.constant none) => .none
  | .scalar (.constant (some value)) => .bool value
  | .scalar (.int value) => .int value
  | .scalar (.float value) => .float value
  | .str text => .str text
  | .arr items => .list (itemsToValue items)
  | .obj members => .dict (membersToValue members)

def itemsToValue : List (Json PyScalar) → List Value
  | [] => []
  | item :: rest => valueOfJson item :: itemsToValue rest

def membersToValue : List (String × Json PyScalar) → List (Value × Value)
  | [] => []
  | (key, value) :: rest => (.str key, valueOfJson value) :: membersToValue rest

end

/-- `json.loads(json.dumps(value, sort_keys=True))`, of a value that has a text. -/
def jsonRoundTrip (value : Value) : Option Value := value.json?.map valueOfJson

/-! ## Secret references -/

/-- `isinstance(segment, (str, int))`, but for booleans. -/
def isPathSegment : Value → Bool
  | .str _ | .int _ => true
  | _ => false

/-- One turn of the loop over the raw paths. -/
def parseSecretReferencePath : Value → Except Error (List Value)
  | .list rawPath =>
      if rawPath.isEmpty || !rawPath.all isPathSegment then
        .error (.persistenceError "persisted secret reference path is invalid")
      else .ok rawPath
  | _ => .error (.persistenceError "persisted secret reference path is invalid")

/-- `_parse_secret_reference_paths` -/
def parseSecretReferencePaths (rawStep : List (Value × Value)) :
    Except Error (List (List Value)) :=
  match Value.field rawStep secretReferencePathsKey (.list []) with
  | .list rawPaths => rawPaths.mapM parseSecretReferencePath
  | _ => .error (.persistenceError "persisted secret reference paths must be a list")

/-- `==` on segments: a text is no number. -/
def sameSegment : Value → Value → Bool
  | .str a, .str b => a = b
  | .int a, .int b => a = b
  | _, _ => false

/-- `==` on paths. -/
def samePath : List Value → List Value → Bool
  | [], [] => true
  | a :: path, b :: other => sameSegment a b && samePath path other
  | _, _ => false

/-- `current_path in target_paths` -/
def isTarget (targetPaths : List (List Value)) (path : List Value) : Bool :=
  targetPaths.any (samePath path)

def invalidPlaceholder : Error :=
  .persistenceError "persisted secret reference placeholder is invalid"

mutual

/-- `restore` -/
def restoreReferences (targetPaths : List (List Value)) (path : List Value) :
    Value → Except Error Value
  | .mappingProxy entries =>
      if isTarget targetPaths path then .error invalidPlaceholder
      else do
        let restored ← restoreEntries targetPaths path entries
        return .mappingProxy restored
  | .tuple items =>
      if isTarget targetPaths path then .error invalidPlaceholder
      else do
        let restored ← restoreItems targetPaths path 0 items
        return .tuple restored
  | .str text =>
      if isTarget targetPaths path then
        if text = secretReferencePlaceholder then .ok .unavailableSecretRef
        else .error invalidPlaceholder
      else .ok (.str text)
  | current => if isTarget targetPaths path then .error invalidPlaceholder else .ok current

def restoreItems (targetPaths : List (List Value)) (path : List Value) (index : ℕ) :
    List Value → Except Error (List Value)
  | [] => .ok []
  | item :: rest => do
      let item ← restoreReferences targetPaths (path ++ [.int index]) item
      let rest ← restoreItems targetPaths path (index + 1) rest
      return item :: rest

def restoreEntries (targetPaths : List (List Value)) (path : List Value) :
    List (Value × Value) → Except Error (List (Value × Value))
  | [] => .ok []
  | (key, item) :: rest => do
      let item ← restoreReferences targetPaths (path ++ [key]) item
      let rest ← restoreEntries targetPaths path rest
      return (key, item) :: rest

end

/-- `_restore_unavailable_secret_references` -/
def restoreUnavailableSecretReferences (value : Value) (paths : List (List Value)) :
    Except Error Value := do
  match ← restoreReferences paths [] value with
  | .mappingProxy entries => return .mappingProxy entries
  | _ => throw (.persistenceError "persisted definition arguments must be a mapping")

/-- `paths_by_step`: of two raw steps with one id the later counts. -/
def pathsByStep : List Value → Except Error (List (Value × List (List Value)))
  | [] => .ok []
  | .dict rawStep :: rest => do
      let paths ← parseSecretReferencePaths rawStep
      let later ← pathsByStep rest
      return later ++ [(Value.field rawStep "id" .none, paths)]
  | _ :: rest => pathsByStep rest

/-- `paths_by_step.get(step_id, ())` -/
def pathsOfStep (stepId : String) (paths : List (Value × List (List Value))) :
    List (List Value) :=
  ((paths.find? fun entry => sameSegment entry.1 (.str stepId)).map Prod.snd).getD []

/-- The part of a step that the invariants of a definition speak of. -/
def StepDefinition.links (step : StepDefinition) : String × List String := (step.id, step.dependsOn)

/-- The loop that restores the steps. -/
def restoreSteps (paths : List (Value × List (List Value))) : (steps : List StepDefinition) →
    Except Error {restored : List StepDefinition //
      restored.map StepDefinition.links = steps.map StepDefinition.links}
  | [] => .ok ⟨[], rfl⟩
  | step :: rest => do
      let arguments ←
        restoreUnavailableSecretReferences step.arguments (pathsOfStep step.id paths)
      let ⟨restored, hlinks⟩ ← restoreSteps paths rest
      return ⟨{ step with arguments := arguments } :: restored, congrArg (step.links :: ·) hlinks⟩

theorem exists_of_links {steps restored : List StepDefinition}
    (h : restored.map StepDefinition.links = steps.map StepDefinition.links)
    {step : StepDefinition} (hstep : step ∈ steps) :
    ∃ other ∈ restored, other.id = step.id ∧ other.dependsOn = step.dependsOn := by
  have hmem : step.links ∈ restored.map StepDefinition.links := h ▸ List.mem_map_of_mem hstep
  obtain ⟨other, hother, hlinks⟩ := List.mem_map.mp hmem
  exact ⟨other, hother, congrArg Prod.fst hlinks, congrArg Prod.snd hlinks⟩

/-- `replace(definition, steps=...)`, of steps with the ids and dependencies there were. -/
def WorkflowDefinition.replaceSteps (definition : WorkflowDefinition)
    (restored : {restored : List StepDefinition //
      restored.map StepDefinition.links = definition.steps.map StepDefinition.links}) :
    WorkflowDefinition where
  __ := definition
  steps := restored.val
  steps_sorted := by
    have hsorted : (restored.val.map StepDefinition.links).Pairwise fun a b => a.1 < b.1 := by
      rw [restored.property]
      exact List.pairwise_map.mpr definition.steps_sorted
    exact (List.pairwise_map (f := StepDefinition.links)).mp hsorted
  dependencies_known := by
    intro step hstep d hd
    obtain ⟨old, hold, -, hdepends⟩ := exists_of_links restored.property.symm hstep
    obtain ⟨other, hother, hid⟩ := definition.dependencies_known old hold d (hdepends ▸ hd)
    obtain ⟨new, hnew, hnewId, -⟩ := exists_of_links restored.property hother
    exact ⟨new, hnew, hnewId.trans hid⟩
  acyclic := by
    obtain ⟨rank, hrank⟩ := definition.acyclic
    refine ⟨rank, fun step hstep d hd => ?_⟩
    obtain ⟨old, hold, hid, hdepends⟩ := exists_of_links restored.property.symm hstep
    rw [← hid]
    exact hrank old hold d (hdepends ▸ hd)

/-! ## Reading -/

section

variable (runtime : Runtime)

/-- `_parse_optional_tool_reference` where every tool is registered. -/
def parsePersistedToolReference (stepId : String) : Value → Except Error (Option ToolReference)
  | .none => .ok none
  | rawValue => do
      let tool ← parseToolReference runtime stepId "compensation_tool" rawValue
      return some tool

/-- One turn of the loop over the raw steps where every tool is registered and the
arguments are taken as they are. -/
def parsePersistedStep (seenIds : List String) (rawStep : Value) :
    Except Error {step : StepDefinition // step.id ∉ seenIds} := do
  let mapping ← requireMapping none "steps" rawStep
  let stepId ← requireString runtime none "id" (.field mapping "id" .none)
  if hseen : stepId ∈ seenIds then
    throw (.definitionValidationError
      s!"duplicate step id {runtime.repr stepId}" (some stepId) (some "id"))
  else
    let tool ← parseToolReference runtime stepId "tool" (.field mapping "tool" .none)
    let arguments ←
      requireMapping (some stepId) "arguments" (.field mapping "arguments" (.dict []))
    let dependsOn ← requireStringSequence runtime (some stepId) "depends_on"
      (.field mapping "depends_on" .none)
    let risk ←
      requireString runtime (some stepId) "risk" (.field mapping "risk" (.str defaultRisk))
    let retry ← parseRetryPolicy runtime stepId (.field mapping "retry" .none)
    let compensationTool ← parsePersistedToolReference runtime stepId
      (.field mapping "compensation_tool" .none)
    let step : StepDefinition := {
      id := stepId, tool := tool, arguments := freezeValue (.dict arguments)
      dependsOn := dependsOn, risk := risk, retry := retry, compensationTool := compensationTool }
    return ⟨step, hseen⟩

/-- `_definition_from_mapping` -/
def definitionFromMapping (payload : List (Value × Value)) : Except Error WorkflowDefinition := do
  let definition ←
    WorkflowDefinition.fromMappingWith runtime (parsePersistedStep runtime) (.dict payload)
  let .list rawSteps := Value.field payload "steps" .none
    | throw (.persistenceError "persisted definition steps must be a list")
  let paths ← pathsByStep rawSteps
  let restored ← restoreSteps paths definition.steps
  return definition.replaceSteps restored

end

end ChangePilot
