import ChangePilot.Ports.Tools

/-!
# The tool registry and redaction

`ToolRegistry` looks tools up by name and version and checks arguments and
outputs against their model types; `redact` hides what must not be stored.
-/

namespace ChangePilot

/-! ## Registry -/

/-- The registered tools, by name and version. -/
structure ToolRegistry where
  tools : String → String → Option ToolDescriptor

def redacted : Value := .str "[REDACTED]"

/-- `_COMMON_SENSITIVE_KEYS` -/
def commonSensitiveKeys : List String :=
  ["access_key", "api_key", "apikey", "authorization", "password", "secret", "secret_key",
    "token"]

mutual

/-- Whether a secret reference that was lost in persistence occurs in the value. -/
def containsUnavailableSecretRef : Value → Bool
  | .unavailableSecretRef => true
  | .model _ fields => anyFieldUnavailable fields
  | .dict entries | .mappingProxy entries => anyEntryUnavailable entries
  | .list items | .tuple items => anyItemUnavailable items
  | _ => false

def anyItemUnavailable : List Value → Bool
  | [] => false
  | item :: rest => containsUnavailableSecretRef item || anyItemUnavailable rest

def anyFieldUnavailable : List (String × Value) → Bool
  | [] => false
  | (_, value) :: rest => containsUnavailableSecretRef value || anyFieldUnavailable rest

def anyEntryUnavailable : List (Value × Value) → Bool
  | [] => false
  | (_, value) :: rest => containsUnavailableSecretRef value || anyEntryUnavailable rest

end

mutual

/-- `model_dump(mode="python")`; a value that is no model keeps its kind. -/
def modelDump : Value → Value
  | .model _ fields => .dict (dumpFields fields)
  | .secretRef provider _ => .ofFields [("provider", .str provider), ("name", redacted)]
  | .dict entries => .dict (dumpEntries entries)
  | .list items => .list (dumpItems items)
  | .tuple items => .tuple (dumpItems items)
  | value => value

def dumpItems : List Value → List Value
  | [] => []
  | item :: rest => modelDump item :: dumpItems rest

def dumpFields : List (String × Value) → List (Value × Value)
  | [] => []
  | (name, value) :: rest => (.str name, modelDump value) :: dumpFields rest

def dumpEntries : List (Value × Value) → List (Value × Value)
  | [] => []
  | (key, value) :: rest => (key, modelDump value) :: dumpEntries rest

end

namespace ToolRegistry

variable (runtime : Runtime) (registry : ToolRegistry)

def contains (name version : String) : Bool := (registry.tools name version).isSome

/-- `resolve`, which here gives the descriptor: `resolve(...).descriptor` and
`descriptor_for` are the same lookup. -/
def descriptorFor (name version : String) : Except Error ToolDescriptor :=
  match registry.tools name version with
  | some descriptor => .ok descriptor
  | none => .error (.lookupError s!"unknown tool {name}@{version}")

def requireMapping (label : String) (value : Value) : Except Error (List (Value × Value)) :=
  match value.entries? with
  | some entries => .ok entries
  | none => .error (.valueError s!"{label} must be a mapping")

def rejectUnexpectedFields (label : String) (payload : List (Value × Value))
    (modelType : ModelType) : Except Error Unit := do
  let unexpected ← runtime.sorted <| payload.filterMap fun entry =>
    match entry.1 with
    | .str name => if name ∈ modelType.modelFields then none else some entry.1
    | _ => some entry.1
  if unexpected.length ≠ 0 then
    throw (.valueError
      s!"{label} contains undeclared fields: {runtime.str (.list unexpected)}")

def validateModel (label : String) (modelType : ModelType) (payload : List (Value × Value)) :
    Except Error Value :=
  match modelType.modelValidate payload with
  | .ok value => .ok value
  | .error text => .error (.valueError s!"invalid {label}: {text}")

def coerceArguments (name version : String) (arguments : Value) : Except Error Value := do
  let descriptor ← registry.descriptorFor name version
  let payload ← requireMapping "arguments" arguments
  if containsUnavailableSecretRef (.dict payload) then
    throw (.valueError "secret reference unavailable after SQLite reload")
  rejectUnexpectedFields runtime "arguments" payload descriptor.inputModel
  validateModel "arguments" descriptor.inputModel payload

def validateOutput (name version : String) (output : Value) : Except Error Value := do
  let descriptor ← registry.descriptorFor name version
  let payload ← requireMapping "output" (modelDump output)
  rejectUnexpectedFields runtime "output" payload descriptor.outputModel
  validateModel "output" descriptor.outputModel payload

end ToolRegistry

/-! ## Idempotency keys -/

def requireIdentity (runtime : Runtime) (fieldName value : String) : Except Error String :=
  if runtime.isBlank value then
    .error (.valueError s!"{fieldName} must be a non-empty string")
  else .ok value

def logicalIdempotencyKey (runtime : Runtime) (runId stepId toolName toolVersion : String)
    (phase : ToolExecutionPhase) : Except Error String := do
  let phase ← requireIdentity runtime "phase" phase.value
  let runId ← requireIdentity runtime "run_id" runId
  let stepId ← requireIdentity runtime "step_id" stepId
  let toolName ← requireIdentity runtime "tool_name" toolName
  let toolVersion ← requireIdentity runtime "tool_version" toolVersion
  let encoded ← runtime.jsonDumps true <| .ofFields [
    ("phase", .str phase),
    ("run_id", .str runId),
    ("step_id", .str stepId),
    ("tool", .ofFields [("name", .str toolName), ("version", .str toolVersion)])]
  return (runtime.sha256 encoded).val

section

variable {runtime : Runtime}

theorem requireIdentity_eq_ok_iff {fieldName value checked : String} :
    requireIdentity runtime fieldName value = .ok checked ↔
      runtime.isBlank value = false ∧ checked = value := by
  unfold requireIdentity
  split
  case isTrue hblank => simp [hblank]
  case isFalse hblank => simp [hblank, eq_comm]

theorem Runtime.StripsBlanks.phase (h : runtime.StripsBlanks) (phase : ToolExecutionPhase) :
    runtime.isBlank phase.value = false := by
  cases phase with
  | forward => exact h _ 'f' (by decide) (by decide)
  | probe => exact h _ 'p' (by decide) (by decide)
  | compensation => exact h _ 'c' (by decide) (by decide)

variable {runId stepId toolName toolVersion : String} {phase : ToolExecutionPhase}

/-- Of what a key is made of, nothing is blank. -/
theorem nonblank_of_logicalIdempotencyKey {key : String}
    (h : logicalIdempotencyKey runtime runId stepId toolName toolVersion phase = .ok key) :
    runtime.isBlank runId = false ∧ runtime.isBlank stepId = false := by
  simp only [logicalIdempotencyKey, Except.bind_eq_ok_iff, requireIdentity_eq_ok_iff] at h
  obtain ⟨_, _, _, ⟨hrunId, _⟩, _, ⟨hstepId, _⟩, _⟩ := h
  exact ⟨hrunId, hstepId⟩

/-- There is a key of what is not blank, and it is not blank either. -/
theorem exists_logicalIdempotencyKey (hstrips : runtime.StripsBlanks)
    (hdumps : runtime.DumpsPlain) (hrunId : runtime.isBlank runId = false)
    (hstepId : runtime.isBlank stepId = false) (hname : runtime.isBlank toolName = false)
    (hversion : runtime.isBlank toolVersion = false) (phase : ToolExecutionPhase) :
    ∃ key, logicalIdempotencyKey runtime runId stepId toolName toolVersion phase = .ok key ∧
      runtime.isBlank key = false := by
  have htool : (Value.ofFields [("name", .str toolName), ("version", .str toolVersion)]).Plain := by
    refine .ofFields (show ["name", "version"].Nodup by decide) ?_
    simp only [List.forall_mem_cons]
    exact ⟨.str _, .str _, List.forall_mem_nil _⟩
  have hpayload : (Value.ofFields [("phase", .str phase.value), ("run_id", .str runId),
      ("step_id", .str stepId),
      ("tool", .ofFields [("name", .str toolName), ("version", .str toolVersion)])]).Plain := by
    refine .ofFields (show ["phase", "run_id", "step_id", "tool"].Nodup by decide) ?_
    simp only [List.forall_mem_cons]
    exact ⟨.str _, .str _, .str _, htool, List.forall_mem_nil _⟩
  obtain ⟨text, htext⟩ := hdumps _ hpayload
  refine ⟨_, ?_, hstrips.sha256 text⟩
  simp only [logicalIdempotencyKey, requireIdentity, hstrips.phase, hrunId, hstepId, hname,
    hversion, Bool.false_eq_true, if_false, Except.bind_of_eq_ok rfl, Except.bind_of_eq_ok htext]
  rfl

end

/-! ## Redaction -/

section

variable (runtime : Runtime) (sensitivePaths : List (List String))

def isSensitiveSegment (segment : String) : Bool :=
  runtime.casefold segment ∈ commonSensitiveKeys

/-- What stands for `value` at `path`, unless the path itself is sensitive. -/
def hideAt (path : List String) (value : Value) : Value :=
  if path ∈ sensitivePaths then redacted else value

/-- What stands for a field `name` whose redacted value is `value`. -/
def hideField (path : List String) (name : String) (value : Value) : Value :=
  if isSensitiveSegment runtime name ∨ path ++ [name] ∈ sensitivePaths then redacted else value

mutual

def redactValue (path : List String) : Value → Value
  | .secretRef _ _ => redacted
  | .model _ fields => hideAt sensitivePaths path (.dict (redactFields path fields))
  | .exception className args =>
      hideAt sensitivePaths path <| .ofFields
        [("type", .str className), ("args", .list (redactExceptionArgs (path ++ ["args"]) 0 args))]
  | .dict entries | .mappingProxy entries =>
      hideAt sensitivePaths path (.ofAssignments (redactEntries path entries))
  | .list items => hideAt sensitivePaths path (.list (redactItems path 0 items))
  | .tuple items => hideAt sensitivePaths path (.tuple (redactItems path 0 items))
  | value => hideAt sensitivePaths path value

def redactItems (path : List String) (index : ℕ) : List Value → List Value
  | [] => []
  | item :: rest =>
      redactValue (path ++ [toString index]) item :: redactItems path (index + 1) rest

def redactFields (path : List String) : List (String × Value) → List (Value × Value)
  | [] => []
  | (name, value) :: rest =>
      (.str name, hideField runtime sensitivePaths path name (redactValue (path ++ [name]) value))
        :: redactFields path rest

def redactEntries (path : List String) : List (Value × Value) → List (String × Value)
  | [] => []
  | (rawKey, value) :: rest =>
      (runtime.str rawKey,
        hideField runtime sensitivePaths path (runtime.str rawKey)
          (redactValue (path ++ [runtime.str rawKey]) value))
        :: redactEntries path rest

/-- The arguments of an exception; texts and bytes are hidden wherever they are. -/
def redactExceptionArgs (path : List String) (index : ℕ) : List Value → List Value
  | [] => []
  | .str _ :: rest => redacted :: redactExceptionArgs path (index + 1) rest
  | .bytes _ :: rest => redacted :: redactExceptionArgs path (index + 1) rest
  | item :: rest =>
      redactValue (path ++ [toString index]) item :: redactExceptionArgs path (index + 1) rest

end

def redact (value : Value) : Value := redactValue runtime sensitivePaths [] value

end

/-- `redact` for the paths as they are declared. -/
def redactDeclared (runtime : Runtime) (strip : String → String) (sensitivePaths : List String)
    (value : Value) : Except Error Value := do
  let normalizedPaths ← sensitivePaths.mapM (normalizeSensitivePath strip)
  return redact runtime normalizedPaths value

end ChangePilot
