import ChangePilot.Domain.States
import ChangePilot.Library.Transaction
import Mathlib.Data.Rat.Floor

/-!
# Values, exceptions and instants

The Python values that the runtime stores or passes on without looking inside,
the exceptions its own code raises, and timestamps.

A `Value` is what arguments, tool outputs and event summaries are made of.  A
`Timestamp` is a `datetime` with a time zone, counted in microseconds from the
first representable instant; the ISO texts the runtime persists carry the same
information.
-/

namespace ChangePilot

/-! ## Values -/

/-- A `float`: a finite one is the rational number it denotes. -/
inductive PyFloat where
  | finite (value : ℚ)
  | infinity (negative : Bool)
  | nan
  deriving DecidableEq, Repr

/-- A Python object.  `model` is an instance of a Pydantic model with its
declared fields in order, `object` anything the runtime has no case for. -/
inductive Value where
  | none
  | bool (value : Bool)
  | int (value : ℤ)
  | float (value : PyFloat)
  | str (value : String)
  | bytes (value : List UInt8)
  | list (items : List Value)
  | tuple (items : List Value)
  | dict (entries : List (Value × Value))
  | mappingProxy (entries : List (Value × Value))
  | model (className : String) (fields : List (String × Value))
  | secretRef (provider name : String)
  | unavailableSecretRef
  | exception (className : String) (args : List Value)
  | object (description : String)

namespace Value

instance : Inhabited Value := ⟨none⟩

/-- A `dict` whose keys are strings. -/
def ofFields (fields : List (String × Value)) : Value :=
  dict (fields.map fun field => (str field.1, field.2))

/-- `entries[key] = value`: a key that is present keeps its place. -/
def assign (entries : List (String × Value)) (key : String) (value : Value) :
    List (String × Value) :=
  if entries.any fun entry => entry.1 = key then
    entries.map fun entry => if entry.1 = key then (key, value) else entry
  else entries ++ [(key, value)]

/-- The `dict` that results from assigning the entries in order. -/
def ofAssignments (assignments : List (String × Value)) : Value :=
  ofFields (assignments.foldl (fun entries entry => assign entries entry.1 entry.2) [])

/-- The entries of a `Mapping`. -/
def entries? : Value → Option (List (Value × Value))
  | dict entries | mappingProxy entries => some entries
  | _ => Option.none

/-- The entry of a mapping under the string `name`. -/
def lookup (name : String) : List (Value × Value) → Option Value
  | [] => Option.none
  | (str key, value) :: rest => if key = name then some value else lookup name rest
  | _ :: rest => lookup name rest

/-- `mapping.get(name, default)`. -/
def field (entries : List (Value × Value)) (name : String) (default : Value) : Value :=
  (lookup name entries).getD default

end Value

/-! ## Exceptions -/

/-- The exceptions the modelled code raises, under their class names. -/
inductive Error where
  | lookupError (message : String)
  | valueError (message : String)
  | typeError (message : String)
  | runtimeError (message : String)
  | overflowError (message : String)
  | attributeError
  | stopIteration
  | invalidTransition (aggregateType currentState targetState : String)
  | definitionValidationError (message : String) (stepId field : Option String)
  | definitionConflictError (message : String)
  | approvalDecisionError (code : String)
  | persistenceError (message : String)
  | uniquenessError (recordType identifier : String)
  | optimisticLockError (aggregateType identifier : String)
      (expectedRevision actualRevision : ℤ)
  | invalidRevisionError (aggregateType identifier : String)
      (expectedRevision actualRevision : ℕ)
  | outcomePersistenceError (message : String)
  deriving DecidableEq, Repr

/-- `str(exc)`. -/
def Error.text : Error → String
  | lookupError message | valueError message | typeError message | runtimeError message
  | overflowError message | definitionConflictError message | persistenceError message
  | outcomePersistenceError message => message
  | attributeError => "'NoneType' object has no attribute"
  | stopIteration => ""
  | invalidTransition aggregateType currentState targetState =>
      s!"invalid {aggregateType} transition: {currentState} -> {targetState}"
  | definitionValidationError message stepId field =>
      match stepId, field with
      | none, none => message
      | some step, none => s!"[step={step}] {message}"
      | none, some field => s!"[field={field}] {message}"
      | some step, some field => s!"[step={step} field={field}] {message}"
  | approvalDecisionError code => code
  | uniquenessError recordType identifier => s!"{recordType} already exists: {identifier}"
  | optimisticLockError aggregateType identifier expectedRevision actualRevision =>
      s!"{aggregateType} optimistic lock failed for {identifier}: " ++
        s!"expected revision {expectedRevision}, found {actualRevision}"
  | invalidRevisionError aggregateType identifier expectedRevision actualRevision =>
      s!"{aggregateType} save rejected for {identifier}: " ++
        s!"expected new revision {expectedRevision}, found {actualRevision}"

/-! ## Instants -/

/-- Microseconds since 0001-01-01T00:00:00 UTC. -/
abbrev Timestamp := ℤ

/-- The last instant of the year 9999. -/
def maxTimestamp : Timestamp := 315537897599999999

/-- The nearest integer, the even one of two equally near. -/
def roundHalfEven (q : ℚ) : ℤ :=
  if q - ⌊q⌋ < 1 / 2 then ⌊q⌋
  else if 1 / 2 < q - ⌊q⌋ then ⌊q⌋ + 1
  else if ⌊q⌋ % 2 = 0 then ⌊q⌋ else ⌊q⌋ + 1

/-- The microseconds of `timedelta(seconds=...)`, at most 999999999 days. -/
def timedeltaMicroseconds : PyFloat → Except Error ℤ
  | .nan => .error (.valueError "cannot convert float NaN to integer")
  | .infinity _ => .error (.overflowError "cannot convert float infinity to integer")
  | .finite seconds =>
      let micros := roundHalfEven (seconds * 1000000)
      if micros / 86400000000 < -999999999 ∨ 999999999 < micros / 86400000000 then
        .error (.overflowError "days out of range")
      else .ok micros

/-- `timestamp + timedelta(seconds=...)`. -/
def Timestamp.addSeconds (timestamp : Timestamp) (seconds : PyFloat) : Except Error Timestamp := do
  let micros ← timedeltaMicroseconds seconds
  if timestamp + micros < 0 ∨ maxTimestamp < timestamp + micros then
    throw (.overflowError "date value out of range")
  return timestamp + micros

/-- `timestamp + timedelta(seconds=...)` is an instant that there is a timestamp for. -/
def Timestamp.Reaches (timestamp : Timestamp) (seconds : PyFloat) : Prop :=
  ∃ value : ℚ, seconds = .finite value ∧
    -999999999 ≤ roundHalfEven (value * 1000000) / 86400000000 ∧
    roundHalfEven (value * 1000000) / 86400000000 ≤ 999999999 ∧
    0 ≤ timestamp + roundHalfEven (value * 1000000) ∧
    timestamp + roundHalfEven (value * 1000000) ≤ maxTimestamp

theorem Timestamp.reaches_iff {timestamp : Timestamp} {seconds : PyFloat} :
    timestamp.Reaches seconds ↔ ∃ next, timestamp.addSeconds seconds = .ok next := by
  unfold Timestamp.Reaches Timestamp.addSeconds
  constructor
  · intro h
    obtain ⟨value, rfl, hlow, hhigh, hpast, hfuture⟩ := h
    have hmicros : timedeltaMicroseconds (.finite value) =
        .ok (roundHalfEven (value * 1000000)) :=
      if_neg (not_or.mpr ⟨not_lt.mpr hlow, not_lt.mpr hhigh⟩)
    rw [Except.bind_of_eq_ok hmicros, if_neg (not_or.mpr ⟨not_lt.mpr hpast, not_lt.mpr hfuture⟩)]
    exact ⟨_, rfl⟩
  · intro h
    obtain ⟨next, hnext⟩ := h
    obtain ⟨micros, hmicros, hnext⟩ := Except.bind_eq_ok_iff.mp hnext
    cases seconds with
    | nan | infinity => cases hmicros
    | finite value =>
        simp only [timedeltaMicroseconds] at hmicros
        split at hmicros
        case isTrue => cases hmicros
        case isFalse hdays =>
          obtain rfl := Except.ok.inj hmicros
          split at hnext
          case isTrue => cases hnext
          case isFalse hinstant =>
            obtain ⟨hlow, hhigh⟩ := not_or.mp hdays
            obtain ⟨hpast, hfuture⟩ := not_or.mp hinstant
            exact ⟨value, rfl, not_lt.mp hlow, not_lt.mp hhigh, not_lt.mp hpast,
              not_lt.mp hfuture⟩

end ChangePilot
