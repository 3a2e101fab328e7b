import ChangePilot.Application.Tooling
import ChangePilot.Library.Kahn
import Mathlib.Data.String.Basic

/-!
# Workflow definitions

A `WorkflowDefinition` is what `from_mapping` accepts.  Its fields carry what
that function has checked: the steps are sorted by id without repetition, every
dependency is a step, and the dependency graph has no cycle, in the form of a
numbering in which dependencies come first.  The checks are made in the order of
the source, each with its own error.
-/

namespace ChangePilot

def maxSteps : ℕ := 100
def maxEdges : ℕ := 1000
def defaultRisk : String := "low"

/-! ## Field checks -/

section

variable (runtime : Runtime)

/-- The error of a field check: the message starts with the field's name. -/
def fieldError (stepId : Option String) (field requirement : String) : Error :=
  .definitionValidationError s!"{field} must be {requirement}" stepId (some field)

def requireMapping (stepId : Option String) (field : String) (value : Value) :
    Except Error (List (Value × Value)) :=
  match value.entries? with
  | some entries => .ok entries
  | none => .error (fieldError stepId field "a mapping")

def requireString (stepId : Option String) (field : String) : Value → Except Error String
  | .str text =>
      if runtime.isBlank text then .error (fieldError stepId field "a non-empty string")
      else .ok text
  | _ => .error (fieldError stepId field "a non-empty string")

def requirePositiveInt (stepId : Option String) (field : String) : Value → Except Error ℕ
  | .int number =>
      if number ≤ 0 then .error (fieldError stepId field "a positive integer")
      else .ok number.toNat
  | _ => .error (fieldError stepId field "a positive integer")

/-- `float(require_number(...))`. -/
def requireNumber (stepId : Option String) (field : String) : Value → Except Error PyFloat
  | .int number => runtime.floatOfInt number
  | .float number => .ok number
  | _ => .error (fieldError stepId field "numeric")

def requireStringSequence (stepId : Option String) (field : String) :
    Value → Except Error (List String)
  | .none => .ok []
  | .list items | .tuple items => do
      let normalized ← items.mapM (requireString runtime stepId field)
      return normalized.dedup.insertionSort (· ≤ ·)
  | _ => .error (fieldError stepId field "a sequence of strings")

end

/-! ## Definitions -/

def PyFloat.leZero : PyFloat → Bool
  | .finite value => value ≤ 0
  | .infinity negative => negative
  | .nan => false

/-- A retry policy within the bounds its constructor checks.  `nan` and positive
infinity pass the check on the backoff. -/
structure RetryPolicy where
  maxAttempts : ℕ := 3
  initialBackoffSeconds : PyFloat := .finite 1
  maxAttempts_bounds : 1 ≤ maxAttempts ∧ maxAttempts ≤ 10 := by decide
  backoff_checked : initialBackoffSeconds.leZero = false := by decide

instance : Inhabited RetryPolicy := ⟨{}⟩

def RetryPolicy.new (maxAttempts : ℕ) (initialBackoffSeconds : PyFloat) :
    Except Error RetryPolicy :=
  if hbounds : 1 ≤ maxAttempts ∧ maxAttempts ≤ 10 then
    if hbackoff : initialBackoffSeconds.leZero = false then
      .ok ⟨maxAttempts, initialBackoffSeconds, hbounds, hbackoff⟩
    else .error (.definitionValidationError
      "initial_backoff_seconds must be positive" none (some "initial_backoff_seconds"))
  else .error (.definitionValidationError
    "max_attempts must be within 1..10" none (some "max_attempts"))

structure StepDefinition where
  id : String
  tool : ToolReference
  arguments : Value
  dependsOn : List String := []
  risk : String := defaultRisk
  retry : RetryPolicy := {}
  compensationTool : Option ToolReference := none

/-- A definition as `from_mapping` returns it. -/
structure WorkflowDefinition where
  definitionId : String
  version : ℕ
  steps : List StepDefinition
  digest : String
  steps_sorted : steps.Pairwise fun a b => a.id < b.id
  dependencies_known : ∀ step ∈ steps, ∀ d ∈ step.dependsOn, ∃ other ∈ steps, other.id = d
  acyclic : ∃ rank : String → ℕ, ∀ step ∈ steps, ∀ d ∈ step.dependsOn, rank d < rank step.id

/-! ## Arguments -/

mutual

/-- `_materialize_coerced_value`: models become dicts, sequences tuples. -/
def materializeCoercedValue : Value → Value
  | .model _ fields => .dict (materializeFields fields)
  | .dict entries | .mappingProxy entries => .dict (materializeEntries entries)
  | .list items | .tuple items => .tuple (materializeItems items)
  | value => value

def materializeItems : List Value → List Value
  | [] => []
  | item :: rest => materializeCoercedValue item :: materializeItems rest

def materializeFields : List (String × Value) → List (Value × Value)
  | [] => []
  | (name, value) :: rest => (.str name, materializeCoercedValue value) :: materializeFields rest

def materializeEntries : List (Value × Value) → List (Value × Value)
  | [] => []
  | (key, value) :: rest => (key, materializeCoercedValue value) :: materializeEntries rest

end

mutual

/-- `_freeze_value`. -/
def freezeValue : Value → Value
  | .dict entries => .mappingProxy (freezeEntries entries)
  | .list items | .tuple items => .tuple (freezeItems items)
  | value => value

def freezeItems : List Value → List Value
  | [] => []
  | item :: rest => freezeValue item :: freezeItems rest

def freezeEntries : List (Value × Value) → List (Value × Value)
  | [] => []
  | (key, value) :: rest => (key, freezeValue value) :: freezeEntries rest

end

mutual

/-- `_thaw_value`, which hides secret references. -/
def thawValue : Value → Value
  | .secretRef _ _ | .unavailableSecretRef => redacted
  | .mappingProxy entries => .dict (thawEntries entries)
  | .tuple items => .list (thawItems items)
  | value => value

def thawItems : List Value → List Value
  | [] => []
  | item :: rest => thawValue item :: thawItems rest

def thawEntries : List (Value × Value) → List (Value × Value)
  | [] => []
  | (key, value) :: rest => (key, thawValue value) :: thawEntries rest

end

/-! ## Parsing -/

section

variable (runtime : Runtime) (registry : ToolRegistry)

/-- `_coerce_arguments`, whose failures become the error of the field. -/
def coerceStepArguments (stepId : String) (tool : ToolReference)
    (rawArguments : List (Value × Value)) : Except Error (List (Value × Value)) :=
  let invalid (text : String) : Error :=
    .definitionValidationError s!"invalid arguments: {text}" (some stepId) (some "arguments")
  match registry.coerceArguments runtime tool.name tool.version (.dict rawArguments) with
  | .error error => .error (invalid error.text)
  | .ok (.dict entries) | .ok (.mappingProxy entries) => .ok entries
  | .ok (.model className fields) =>
      match materializeCoercedValue (.model className fields) with
      | .dict entries => .ok entries
      | _ => .error (invalid "tool argument coercion must return a mapping")
  | .ok (.secretRef _ _) => .error (invalid "tool argument coercion must return a mapping")
  | .ok _ => .error
      (invalid "tool argument coercion must return a mapping or Pydantic model")

def parseToolReference (stepId : String) (field : String) (rawValue : Value) :
    Except Error ToolReference := do
  let mapping ← requireMapping (some stepId) field rawValue
  let name ← requireString runtime (some stepId) s!"{field}.name" (.field mapping "name" .none)
  let version ←
    requireString runtime (some stepId) s!"{field}.version" (.field mapping "version" .none)
  return ⟨name, version⟩

def ensureRegistered (stepId : String) (field : String) (tool : ToolReference) :
    Except Error Unit :=
  if registry.contains tool.name tool.version then .ok ()
  else .error (.definitionValidationError
    s!"unknown tool {tool.name}@{tool.version}" (some stepId) (some field))

def parseOptionalToolReference (stepId : String) :
    Value → Except Error (Option ToolReference)
  | .none => .ok none
  | rawValue => do
      let tool ← parseToolReference runtime stepId "compensation_tool" rawValue
      ensureRegistered registry stepId "compensation_tool" tool
      return some tool

def parseRetryPolicy (stepId : String) : Value → Except Error RetryPolicy
  | .none => .ok {}
  | rawValue => do
      let mapping ← requireMapping (some stepId) "retry" rawValue
      let maxAttempts ← requirePositiveInt (some stepId) "retry.max_attempts"
        (.field mapping "max_attempts" (.int 3))
      let initialBackoffSeconds ← requireNumber runtime (some stepId)
        "retry.initial_backoff_seconds"
        (.field mapping "initial_backoff_seconds" (.float (.finite 1)))
      match RetryPolicy.new maxAttempts initialBackoffSeconds with
      | .ok policy => return policy
      | .error (.definitionValidationError message _ (some field)) =>
          throw (.definitionValidationError message (some stepId) (some s!"retry.{field}"))
      | .error error => throw error

/-- One turn of the loop over the raw steps, after the steps with `seenIds`. -/
def parseStep (seenIds : List String) (rawStep : Value) :
    Except Error {step : StepDefinition // step.id ∉ seenIds} := do
  let mapping ← requireMapping none "steps" rawStep
  let stepId ← requireString runtime none "id" (.field mapping "id" .none)
  if hseen : stepId ∈ seenIds then
    throw (.definitionValidationError
      s!"duplicate step id {runtime.repr stepId}" (some stepId) (some "id"))
  else
    let tool ← parseToolReference runtime stepId "tool" (.field mapping "tool" .none)
    ensureRegistered registry stepId "tool" tool
    let argumentsMapping ←
      requireMapping (some stepId) "arguments" (.field mapping "arguments" (.dict []))
    let arguments ← coerceStepArguments runtime registry stepId tool argumentsMapping
    let dependsOn ← requireStringSequence runtime (some stepId) "depends_on"
      (.field mapping "depends_on" .none)
    let risk ←
      requireString runtime (some stepId) "risk" (.field mapping "risk" (.str defaultRisk))
    let retry ← parseRetryPolicy runtime stepId (.field mapping "retry" .none)
    let compensationTool ← parseOptionalToolReference runtime registry stepId
      (.field mapping "compensation_tool" .none)
    let step : StepDefinition := {
      id := stepId, tool := tool, arguments := freezeValue (.dict arguments)
      dependsOn := dependsOn, risk := risk, retry := retry, compensationTool := compensationTool }
    return ⟨step, hseen⟩

/-- The parsed steps in payload order, whose ids are those seen so far. -/
abbrev ParsedSteps := {steps : List StepDefinition // (steps.map StepDefinition.id).Nodup}

theorem nodup_append_parsed {parsed : ParsedSteps} {step : StepDefinition}
    (h : step.id ∉ parsed.val.map StepDefinition.id) :
    ((parsed.val ++ [step]).map StepDefinition.id).Nodup := by
  rw [List.map_append, List.nodup_append]
  refine ⟨parsed.property, by simp, ?_⟩
  rintro a ha b hb rfl
  simp only [List.map_cons, List.map_nil, List.mem_singleton] at hb
  exact h (hb ▸ ha)

/-- The loop over the raw steps. -/
def parseSteps : ParsedSteps → List Value → Except Error ParsedSteps
  | parsed, [] => .ok parsed
  | parsed, rawStep :: rest => do
      let ⟨step, hnew⟩ ← parseStep runtime registry (parsed.val.map StepDefinition.id) rawStep
      parseSteps ⟨parsed.val ++ [step], nodup_append_parsed hnew⟩ rest

/-- The first dependency without a step, with the step that has it. -/
def unknownDependency (steps : List StepDefinition) : Option (String × String) :=
  steps.findSome? fun step =>
    (step.dependsOn.find? fun d => d ∉ steps.map StepDefinition.id).map fun d => (step.id, d)

def dependencies (steps : List StepDefinition) : Kahn.Graph String :=
  steps.map fun step => (step.id, step.dependsOn)

/-! ## The digest -/

def toolToCanonical (tool : ToolReference) : Value :=
  .ofFields [("name", .str tool.name), ("version", .str tool.version)]

def stepToCanonical (step : StepDefinition) : Value :=
  .ofFields [
    ("id", .str step.id),
    ("tool", toolToCanonical step.tool),
    ("arguments", thawValue step.arguments),
    ("depends_on", .list (step.dependsOn.map .str)),
    ("risk", .str step.risk),
    ("retry", .ofFields [
      ("max_attempts", .int step.retry.maxAttempts),
      ("initial_backoff_seconds", .float step.retry.initialBackoffSeconds)]),
    ("compensation_tool", (step.compensationTool.map toolToCanonical).getD .none)]

def calculateDigest (definitionId : String) (version : ℕ) (steps : List StepDefinition) :
    Except Error String := do
  let encoded ← runtime.jsonDumps true <| .ofFields [
    ("definition_id", .str definitionId),
    ("version", .int version),
    ("steps", .list (steps.map stepToCanonical))]
  return (runtime.sha256 encoded).val

/-! ## What the checks establish -/

theorem unknownDependency_eq_none {steps : List StepDefinition}
    (h : unknownDependency steps = none) :
    ∀ step ∈ steps, ∀ d ∈ step.dependsOn, ∃ other ∈ steps, other.id = d := by
  intro step hstep d hd
  have hnone := List.findSome?_eq_none_iff.mp h step hstep
  rw [Option.map_eq_none_iff, List.find?_eq_none] at hnone
  have hmem : d ∈ steps.map StepDefinition.id := by simpa using hnone d hd
  obtain ⟨other, hother, hid⟩ := List.mem_map.mp hmem
  exact ⟨other, hother, hid⟩

theorem exists_rank_of_findCycle {steps : List StepDefinition}
    (hnodup : (steps.map StepDefinition.id).Nodup)
    (h : Kahn.findCycle (dependencies steps) = none) :
    ∃ rank : String → ℕ, ∀ step ∈ steps, ∀ d ∈ step.dependsOn, rank d < rank step.id := by
  have hnodes : Kahn.nodes (dependencies steps) = steps.map StepDefinition.id := by
    simp [Kahn.nodes, dependencies]
  have hkeys : (Kahn.nodes (dependencies steps)).Nodup := hnodes ▸ hnodup
  obtain ⟨rank, hrank⟩ := Kahn.exists_rank_of_findCycle_eq_none hkeys h
  refine ⟨rank, fun step hstep d hd => hrank step.id ?_ d ?_⟩
  · rw [hnodes]; exact List.mem_map_of_mem hstep
  · have hmem : (step.id, step.dependsOn) ∈ dependencies steps :=
      List.mem_map.mpr ⟨step, hstep, rfl⟩
    rwa [Kahn.depsOf_of_mem hkeys hmem]

/-- `tuple(sorted(steps, key=lambda step: step.id))`. -/
def sortSteps (steps : List StepDefinition) : List StepDefinition :=
  steps.insertionSort fun a b => a.id ≤ b.id

theorem mem_sortSteps {steps : List StepDefinition} {step : StepDefinition} :
    step ∈ sortSteps steps ↔ step ∈ steps := List.mem_insertionSort _

theorem pairwise_sortSteps {steps : List StepDefinition}
    (hnodup : (steps.map StepDefinition.id).Nodup) :
    (sortSteps steps).Pairwise fun a b => a.id < b.id := by
  have : Std.Total fun a b : StepDefinition => a.id ≤ b.id := ⟨fun a b => le_total a.id b.id⟩
  have : IsTrans StepDefinition fun a b => a.id ≤ b.id := ⟨fun _ _ _ => le_trans⟩
  have hle : (sortSteps steps).Pairwise fun a b => a.id ≤ b.id :=
    List.pairwise_insertionSort _ steps
  have hne : (sortSteps steps).Pairwise fun a b => a.id ≠ b.id := by
    have hperm := (List.perm_insertionSort (fun a b : StepDefinition => a.id ≤ b.id) steps).map
      StepDefinition.id
    exact List.pairwise_map.mp (hperm.nodup_iff.mpr hnodup)
  exact (hle.and hne).imp fun h => lt_of_le_of_ne h.1 h.2

/-! ## `from_mapping` -/

def WorkflowDefinition.fromMapping (payload : Value) : Except Error WorkflowDefinition := do
  let mapping ← requireMapping none "workflow" payload
  let definitionId ← requireString runtime none "definition_id"
    (.field mapping "definition_id" .none)
  let version ← requirePositiveInt none "version" (.field mapping "version" .none)
  let .list rawSteps := Value.field mapping "steps" .none
    | throw (.definitionValidationError "steps must be a list" none (some "steps"))
  if maxSteps < rawSteps.length then
    throw (.definitionValidationError
      s!"workflow definition supports at most {maxSteps} steps" none (some "steps"))
  let parsed ← parseSteps runtime registry ⟨[], List.nodup_nil⟩ rawSteps
  if maxEdges < (parsed.val.map fun step => step.dependsOn.length).sum then
    throw (.definitionValidationError
      s!"workflow definition supports at most {maxEdges} dependency edges" none (some "steps"))
  match hknown : unknownDependency parsed.val with
  | some (stepId, dependency) =>
      throw (.definitionValidationError
        s!"unknown dependency target {runtime.repr dependency}" (some stepId) (some "depends_on"))
  | none =>
      match hcycle : Kahn.findCycle (dependencies parsed.val) with
      | some cycle =>
          let members := ", ".intercalate cycle
          throw (.definitionValidationError s!"cycle detected among steps: {members}" cycle.head?
            (some "depends_on"))
      | none => do
          let digest ← calculateDigest runtime definitionId version (sortSteps parsed.val)
          return {
            definitionId := definitionId
            version := version
            steps := sortSteps parsed.val
            digest := digest
            steps_sorted := pairwise_sortSteps parsed.property
            dependencies_known := by
              intro step hstep d hd
              obtain ⟨other, hother, hid⟩ :=
                unknownDependency_eq_none hknown step (mem_sortSteps.mp hstep) d hd
              exact ⟨other, mem_sortSteps.mpr hother, hid⟩
            acyclic := by
              obtain ⟨rank, hrank⟩ := exists_rank_of_findCycle parsed.property hcycle
              exact ⟨rank, fun step hstep => hrank step (mem_sortSteps.mp hstep)⟩ }

end

end ChangePilot
