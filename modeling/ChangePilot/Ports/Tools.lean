import ChangePilot.Domain.Values

/-!
# Tools and the standard library

What the runtime knows of a tool: its descriptor, the Pydantic model types at
its boundary, the contexts it is called with and the ways a call can end.  What
a call does is never computed here; its ending is an input of the model.

`Runtime` collects the functions of Python's standard library that the runtime
calls and that are taken as given.
-/

namespace ChangePilot

/-- A text that `_is_sha256_digest` accepts. -/
def isSha256Digest (value : String) : Bool :=
  value.length == 64 && value.toList.all fun character =>
    character ∈ "0123456789abcdefABCDEF".toList

abbrev Sha256Digest := {value : String // isSha256Digest value}

/-- The standard library functions that are taken as given. -/
structure Runtime where
  /-- `hashlib.sha256(text.encode("utf-8")).hexdigest()` -/
  sha256 : String → Sha256Digest
  /-- `json.dumps(value, sort_keys=True, separators=(",", ":"))` -/
  jsonDumps : (allowNan : Bool) → Value → Except Error String
  /-- `not text.strip()` -/
  isBlank : String → Bool
  /-- `float(number)` -/
  floatOfInt : ℤ → Except Error PyFloat
  /-- `repr(text)` -/
  repr : String → String
  /-- `text.casefold()` -/
  casefold : String → String
  /-- `str(value)` -/
  str : Value → String
  /-- `sorted(values)` -/
  sorted : List Value → Except Error (List Value)

/-! ## What is known of it -/

/-- Texts, sequences of plain values, and mappings from texts to them. -/
inductive Value.Plain : Value → Prop
  | str (text : String) : Plain (.str text)
  | list {items : List Value} (h : ∀ item ∈ items, Plain item) : Plain (.list items)
  | ofFields {fields : List (String × Value)} (hnodup : (fields.map Prod.fst).Nodup)
      (h : ∀ field ∈ fields, Plain field.2) : Plain (.ofFields fields)

/-- `json.dumps` raises nothing on plain data. -/
def Runtime.DumpsPlain (runtime : Runtime) : Prop :=
  ∀ value : Value, value.Plain → ∃ text, runtime.jsonDumps true value = .ok text

/-- `strip` leaves ASCII letters and digits. -/
def Runtime.StripsBlanks (runtime : Runtime) : Prop :=
  ∀ text : String, ∀ c ∈ text.toList, c.isAlphanum → runtime.isBlank text = false

theorem Runtime.StripsBlanks.sha256 {runtime : Runtime} (h : runtime.StripsBlanks)
    (text : String) : runtime.isBlank (runtime.sha256 text).val = false := by
  obtain ⟨digest, hdigest⟩ := runtime.sha256 text
  simp only [isSha256Digest, Bool.and_eq_true, beq_iff_eq, List.all_eq_true,
    decide_eq_true_eq] at hdigest
  have hne : digest.toList ≠ [] := fun hnil => by
    simp [hnil, ← String.length_toList] at hdigest
  obtain ⟨c, hc⟩ := List.exists_mem_of_ne_nil _ hne
  have hhex : ∀ d ∈ "0123456789abcdefABCDEF".toList, d.isAlphanum :=
    List.all_eq_true.mp (by decide)
  exact h digest c hc (hhex c (hdigest.2 c hc))

/-! ## Tools -/

/-- `normalize_sensitive_path`; `strip` is `str.strip`. -/
def normalizeSensitivePath (strip : String → String) (path : String) :
    Except Error (List String) :=
  if strip path = "" then .error (.valueError "sensitive paths must be non-empty dotted strings")
  else
    let segments := (path.toList.splitOn '.').map fun segment => strip (String.ofList segment)
    if "" ∈ segments then .error (.valueError "sensitive paths cannot contain empty segments")
    else .ok segments

inductive ToolRisk where
  | low | medium | high
  deriving DecidableEq, Repr

inductive ToolIdempotency where
  | supported | probeOnly | none
  deriving DecidableEq, Repr

inductive ToolExecutionPhase where
  | forward | probe | compensation
  deriving DecidableEq, Repr

inductive ToolProbeStatus where
  | found | notFound | inconclusive
  deriving DecidableEq, Repr

def ToolExecutionPhase.value : ToolExecutionPhase → String
  | forward => "forward"
  | probe => "probe"
  | compensation => "compensation"

/-- A strict Pydantic model type: its declared fields, and the instance or the
validation error it answers for a payload. -/
structure ModelType where
  modelFields : List String
  modelValidate : List (Value × Value) → Except String Value

/-- A registered descriptor.  The sensitive paths are kept as the segments that
`normalize_sensitive_path` gives for them. -/
structure ToolDescriptor where
  name : String
  version : String
  inputModel : ModelType
  outputModel : ModelType
  risk : ToolRisk
  idempotency : ToolIdempotency
  defaultTimeoutSeconds : ℕ
  maxTimeoutSeconds : ℕ
  sensitiveArgumentPaths : List (List String)
  defaultTimeout_pos : 0 < defaultTimeoutSeconds
  timeoutWindow : defaultTimeoutSeconds ≤ maxTimeoutSeconds

structure ToolReference where
  name : String
  version : String
  deriving DecidableEq, Repr

/-- The context of one execution.  The metadata, which repeats the arguments for
the tool, is left out. -/
structure ToolExecutionContext where
  runId : String
  stepId : String
  attemptNumber : ℕ
  phase : ToolExecutionPhase
  logicalIdempotencyKey : String
  deadline : Timestamp
  deriving DecidableEq, Repr

/-- The validated constructor; an attempt number and a deadline of the model are
always well formed. -/
def ToolExecutionContext.new (runtime : Runtime) (context : ToolExecutionContext) :
    Except Error ToolExecutionContext :=
  if runtime.isBlank context.runId then
    .error (.valueError "run_id must be a non-empty string")
  else if runtime.isBlank context.stepId then
    .error (.valueError "step_id must be a non-empty string")
  else if runtime.isBlank context.logicalIdempotencyKey then
    .error (.valueError "logical_idempotency_key must be a non-empty string")
  else .ok context

theorem ToolExecutionContext.new_eq_ok {runtime : Runtime} {context validated : ToolExecutionContext}
    (h : ToolExecutionContext.new runtime context = .ok validated) : validated = context := by
  unfold ToolExecutionContext.new at h
  split at h
  · simp at h
  split at h
  · simp at h
  split at h
  · simp at h
  · exact (Except.ok.inj h).symm

theorem ToolExecutionContext.new_isOk {runtime : Runtime} {context : ToolExecutionContext}
    (hrunId : runtime.isBlank context.runId = false)
    (hstepId : runtime.isBlank context.stepId = false)
    (hkey : runtime.isBlank context.logicalIdempotencyKey = false) :
    ToolExecutionContext.new runtime context = .ok context := by
  simp [ToolExecutionContext.new, hrunId, hstepId, hkey]

/-- What a recovery probe asks. -/
structure RecoveryQuery where
  runId : String
  stepId : String
  phase : ToolExecutionPhase
  logicalIdempotencyKey : String
  deadline : Timestamp
  deriving DecidableEq, Repr

structure ToolExecutionResult where
  output : Value
  effectApplied : Bool

/-- An exception out of a tool, as far as `_classify_tool_exception` tells them
apart. -/
inductive ToolException where
  | domainError (errorClass : ErrorClass)
  | timeoutError
  | connectionError
  | other

/-- A `ToolProbeResult`: an output comes with `found`, and never with
`notFound`. -/
inductive ToolProbeResult where
  | found (output : Value)
  | notFound
  | inconclusive (output : Option Value)

def ToolProbeResult.status : ToolProbeResult → ToolProbeStatus
  | found _ => .found
  | notFound => .notFound
  | inconclusive _ => .inconclusive

end ChangePilot
