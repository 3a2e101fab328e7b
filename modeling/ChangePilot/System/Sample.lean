import ChangePilot.Library.Sha256
import ChangePilot.Ports.CanonicalJson
import ChangePilot.System.Runs

/-!
# A small deployment

A runtime that does what Python does with the short ASCII values used here, a
registry with a few tools, and the payloads and turns that runs of it are made of.
-/

namespace ChangePilot.Sample

/-! ## The runtime -/

def space (byte : UInt8) : Bool := byte = 32 ∨ (9 ≤ byte ∧ byte ≤ 13) ∨ (28 ≤ byte ∧ byte ≤ 31)

def isBlank (text : String) : Bool := text.toByteArray.data.toList.all space

def lower (text : String) : String := String.ofList (text.toList.map Char.toLower)

def quoted (text : String) : String := "\"" ++ text ++ "\""

mutual

/-- `json.dumps` with sorted keys and no blanks; a text is taken to need no escape, a
finite float to be integral. -/
def jsonText : Value → Option String
  | .none => some "null"
  | .bool value => some (if value then "true" else "false")
  | .int value => some (toString value)
  | .float (.finite value) => if value.den = 1 then some (toString value.num ++ ".0") else none
  | .str text => some (quoted text)
  | .list items | .tuple items => (jsonItems items).map fun texts =>
      "[" ++ ",".intercalate texts ++ "]"
  | .dict entries => (jsonEntries entries).map fun members =>
      let sorted := members.insertionSort fun a b => a.1 ≤ b.1
      "\x7b" ++ ",".intercalate (sorted.map fun member => quoted member.1 ++ ":" ++ member.2) ++
        "\x7d"
  | _ => none

def jsonItems : List Value → Option (List String)
  | [] => some []
  | item :: rest => do return (← jsonText item) :: (← jsonItems rest)

def jsonEntries : List (Value × Value) → Option (List (String × String))
  | [] => some []
  | (.str key, value) :: rest => do return (key, ← jsonText value) :: (← jsonEntries rest)
  | _ :: _ => none

end

def sha256 (text : String) : Sha256Digest :=
  ⟨Sha256.hexDigest text, by
    simp only [isSha256Digest, Sha256.length_hexDigest, beq_self_eq_true, Bool.true_and,
      List.all_eq_true, decide_eq_true_eq]
    have hhex : Sha256.hexDigits ⊆ "0123456789abcdefABCDEF".toList := by decide
    exact fun digit hdigit => hhex (Sha256.mem_hexDigits_of_mem_hexDigest hdigit)⟩

/-- `str` of a text, and the JSON text of anything else. -/
def textOf : Value → String
  | .str text => text
  | value => (jsonText value).getD ""

def sortTexts (values : List Value) : Except Error (List Value) :=
  match values.mapM fun | .str text => some text | _ => none with
  | some texts => .ok ((texts.insertionSort (· ≤ ·)).map .str)
  | none => .error (.typeError "'<' not supported")

def runtime : Runtime where
  sha256 := sha256
  jsonDumps _ value :=
    match jsonText value with
    | some text => .ok text
    | none => .error (.typeError "not JSON serializable")
  isBlank := isBlank
  floatOfInt number := .ok (.finite number)
  repr text := "'" ++ text ++ "'"
  casefold := lower
  str := textOf
  sorted := sortTexts

/-- The byte of an ASCII letter or digit is no space. -/
theorem runtime_stripsBlanks : runtime.StripsBlanks := by
  intro text c hc hword
  refine Bool.eq_false_iff.mpr ?_
  have hword : 48 ≤ c.val.toNat ∧ c.val.toNat < 128 := by
    delta Char.isAlphanum Char.isAlpha Char.isUpper Char.isLower Char.isDigit at hword
    simp only [Bool.or_eq_true, Bool.and_eq_true, decide_eq_true_eq, UInt32.le_iff_toNat_le,
      ge_iff_le, Char.reduceVal, UInt32.reduceToNat] at hword
    omega
  have hsize : c.utf8Size = 1 := by
    rw [Char.utf8Size_eq_one_iff, UInt32.le_iff_toNat_le]
    show c.val.toNat ≤ 127
    omega
  have hbyte : c.val.toUInt8 ∈ text.toByteArray.data.toList := by
    rw [← String.utf8Encode_toList, List.utf8Encode, List.toList_data_toByteArray]
    exact List.mem_flatMap.mpr ⟨c, hc, by
      rw [String.utf8EncodeChar_eq_singleton hsize]; exact List.mem_singleton_self _⟩
  have hspace : space c.val.toUInt8 = false := by
    have hlow : 48 ≤ c.val.toUInt8.toNat := by
      rw [UInt32.toNat_toUInt8]
      omega
    generalize c.val.toUInt8 = byte at hlow
    simp only [space, decide_eq_false_iff_not, ← UInt8.toNat_inj, UInt8.le_iff_toNat_le,
      UInt8.reduceToNat]
    omega
  intro hblank
  exact absurd (List.all_eq_true.mp hblank _ hbyte) (by rw [hspace]; exact Bool.false_ne_true)

theorem exists_jsonItems {items : List Value}
    (h : ∀ item ∈ items, ∃ text, jsonText item = some text) :
    ∃ texts, jsonItems items = some texts := by
  induction items with
  | nil => exact ⟨[], rfl⟩
  | cons item rest ih =>
      obtain ⟨⟨text, htext⟩, hrest⟩ := List.forall_mem_cons.mp h
      obtain ⟨texts, htexts⟩ := ih hrest
      exact ⟨text :: texts, by simp [jsonItems, htext, htexts]⟩

theorem exists_jsonEntries {fields : List (String × Value)}
    (h : ∀ field ∈ fields, ∃ text, jsonText field.2 = some text) :
    ∃ members, jsonEntries (fields.map fun field => (.str field.1, field.2)) = some members := by
  induction fields with
  | nil => exact ⟨[], rfl⟩
  | cons field rest ih =>
      obtain ⟨⟨text, htext⟩, hrest⟩ := List.forall_mem_cons.mp h
      obtain ⟨members, hmembers⟩ := ih hrest
      exact ⟨(field.1, text) :: members, by simp [jsonEntries, htext, hmembers]⟩

theorem runtime_dumpsPlain : runtime.DumpsPlain := by
  intro value hvalue
  have htext : ∃ text, jsonText value = some text := by
    induction hvalue with
    | str text => exact ⟨_, rfl⟩
    | list _ ih =>
        obtain ⟨texts, htexts⟩ := exists_jsonItems ih
        exact ⟨_, by rw [jsonText, htexts]; rfl⟩
    | ofFields _ _ ih =>
        obtain ⟨members, hmembers⟩ := exists_jsonEntries ih
        exact ⟨_, by rw [Value.ofFields, jsonText, hmembers]; rfl⟩
  obtain ⟨text, htext⟩ := htext
  exact ⟨text, by simp only [runtime, htext]⟩

/-! ## Canonical JSON -/

/-- The texts of floats: those of `repr` for integral and special ones, and others of
their own for the rest. -/
def floatText : PyFloat → String
  | .finite value => toString value.num ++ "." ++ Nat.repr (value.den - 1)
  | .infinity negative => if negative then "-Infinity" else "Infinity"
  | .nan => "NaN"

/-- The characters of the texts of integers. -/
def Numeric (c : Char) : Prop := c.isDigit ∨ c = '-'

instance (c : Char) : Decidable (Numeric c) := inferInstanceAs (Decidable (_ ∨ _))

theorem numeric_of_mem_int {number : ℤ} {c : Char} (h : c ∈ (toString number).toList) :
    Numeric c := by
  rcases toList_toString_int number with ⟨_, htext⟩ | ⟨_, htext⟩ <;> rw [htext] at h
  · exact .inl (isDigit_of_mem_natRepr h)
  · rcases List.mem_cons.mp h with rfl | hdigit
    · exact .inr rfl
    · exact .inl (isDigit_of_mem_natRepr hdigit)

theorem toList_floatText (value : ℚ) : (floatText (.finite value)).toList =
    (toString value.num).toList ++ '.' :: (Nat.repr (value.den - 1)).toList := by
  rw [floatText, String.toList_append, String.toList_append, List.append_assoc]
  rfl

/-- The numerator ends where the point stands. -/
theorem takeWhile_floatText (value : ℚ) :
    (floatText (.finite value)).toList.takeWhile (Numeric ·) = (toString value.num).toList := by
  rw [toList_floatText, List.takeWhile_append_of_pos]
  · simp [Numeric]
  · exact fun c hc => decide_eq_true (numeric_of_mem_int hc)

theorem finite_injective {a b : ℚ}
    (h : floatText (.finite a) = floatText (.finite b)) : a = b := by
  have hnum : toString a.num = toString b.num := by
    refine String.toList_injective ?_
    rw [← takeWhile_floatText, h, takeWhile_floatText]
  have htexts : (floatText (.finite a)).toList = (floatText (.finite b)).toList := by rw [h]
  rw [toList_floatText, toList_floatText, hnum] at htexts
  have hden := (List.cons.inj (List.append_cancel_left htexts)).2
  have hpred := natRepr_injective (String.toList_injective hden)
  refine Rat.ext (toString_int_injective hnum) ?_
  have ha := a.den_pos
  have hb := b.den_pos
  omega

/-- What is not finite has no point in its text. -/
theorem point_mem (value : ℚ) : '.' ∈ (floatText (.finite value)).toList := by
  rw [toList_floatText]
  exact List.mem_append_right _ List.mem_cons_self

theorem finite_ne {value : ℚ} {text : String} (h : '.' ∉ text.toList) :
    floatText (.finite value) ≠ text := fun heq => h (heq ▸ point_mem value)

theorem bare_of_numeric {c : Char} (h : Numeric c) : Json.Bare c := by
  rcases h with hdigit | rfl
  · exact bare_of_isDigit hdigit
  · exact by decide

theorem ne_int {text : String} (h : text.toList.all (Numeric ·) = false) (number : ℤ) :
    text ≠ toString number := by
  rintro rfl
  have hall : (toString number).toList.all (Numeric ·) = true :=
    List.all_eq_true.mpr fun c hc => decide_eq_true (numeric_of_mem_int hc)
  exact absurd (h.symm.trans hall) (by decide)

theorem bare_special {text : String} (h : text.toList.all (Json.Bare ·) = true) :
    ∀ c ∈ text.toList, Json.Bare c :=
  fun c hc => of_decide_eq_true (List.all_eq_true.mp h c hc)

theorem floatTexts : FloatTexts floatText where
  injective a b h := by
    rcases a with a | (_ | _) | _ <;> rcases b with b | (_ | _) | _
    case finite.finite => exact congrArg PyFloat.finite (finite_injective h)
    all_goals first
      | rfl
      | exact absurd h (finite_ne (by decide))
      | exact absurd h.symm (finite_ne (by decide))
      | exact absurd h (by decide)
  bare value c hc := by
    rcases value with value | (_ | _) | _
    case finite =>
      rw [toList_floatText] at hc
      rcases List.mem_append.mp hc with hnum | hrest
      · exact bare_of_numeric (numeric_of_mem_int hnum)
      · rcases List.mem_cons.mp hrest with rfl | hden
        · exact by decide
        · exact bare_of_isDigit (isDigit_of_mem_natRepr hden)
    all_goals exact bare_special rfl c hc
  ne_empty value := by
    rcases value with value | (_ | _) | _
    case finite => exact finite_ne (by decide)
    all_goals decide
  ne_int value number := by
    rcases value with value | (_ | _) | _
    case finite => exact finite_ne fun h => absurd (numeric_of_mem_int h) (by decide)
    all_goals exact ne_int rfl number
  ne_constant value constant := by
    rcases constant with _ | _ | _ <;> rcases value with value | (_ | _) | _ <;>
      first
        | exact finite_ne (by decide)
        | decide

/-- The runtime, with the texts of `json.dumps` for all values that have a canonical one. -/
def canonicalRuntime : Runtime where
  __ := runtime
  jsonDumps _ value :=
    match value.json? with
    | some json => .ok (ChangePilot.jsonText floatText json)
    | none => .error (.typeError "not JSON serializable")

theorem canonicalRuntime_dumpsJson : canonicalRuntime.DumpsJson floatText where
  floats := floatTexts
  dumps value json text hjson htext := by
    simp only [canonicalRuntime, hjson] at htext
    exact (Except.ok.inj htext).symm

/-! ## Tools -/

/-- A model without fields. -/
def nothing : ModelType where
  modelFields := []
  modelValidate
    | [] => .ok (.model "Nothing" [])
    | _ :: _ => .error "Extra inputs are not permitted"

/-- A model with the one field `name`, which must be an integer. -/
def oneInteger (name : String) : ModelType where
  modelFields := [name]
  modelValidate payload :=
    match Value.lookup name payload with
    | some (.int value) => .ok (.model "OneInteger" [(name, .int value)])
    | some _ => .error "Input should be a valid integer"
    | none => .error "Field required"

def tool (name : String) (inputModel : ModelType) (risk : ToolRisk)
    (idempotency : ToolIdempotency) : ToolDescriptor where
  name := name
  version := "1"
  inputModel := inputModel
  outputModel := nothing
  risk := risk
  idempotency := idempotency
  defaultTimeoutSeconds := 30
  maxTimeoutSeconds := 60
  sensitiveArgumentPaths := []
  defaultTimeout_pos := by decide
  timeoutWindow := by decide

/-- Tools to change and to undo something, one that needs approval, and one that
undoes a given revision. -/
def registry : ToolRegistry where
  tools name version :=
    if version ≠ "1" then none
    else if name = "change" ∨ name = "undo" then some (tool name nothing .low .supported)
    else if name = "danger" then some (tool name nothing .high .supported)
    else if name = "revert" then some (tool name (oneInteger "revision") .low .supported)
    else none

def deployment : Deployment where
  runtime := runtime
  registry := registry

/-! ## Runs -/

def toolPayload (name : String) : Value := .ofFields [("name", .str name), ("version", .str "1")]

/-- A step of a payload, with the tool that undoes it, if there is one. -/
def stepPayload (id name : String) (dependsOn : List String) (compensation : Option String) :
    Value :=
  .ofFields <| [
    ("id", .str id),
    ("tool", toolPayload name),
    ("depends_on", .list (dependsOn.map .str))] ++
    compensation.toList.map fun name => ("compensation_tool", toolPayload name)

/-- Create the run `"r"` of a definition with these steps. -/
def create (steps : List Value) : List Action :=
  [.createRun (.ofFields [
    ("definition_id", .str "d"), ("version", .int 1), ("steps", .list steps)]) "r"]

/-- Calls are carried through, which takes at most forty operations; the selected run
is `"r"`, and probes answer `answer`. -/
def call (action : Action) (answer : Option ToolProbeResult) : List Action :=
  action :: List.replicate 40
    (.proceed { newId := "n", selected := some "r", answers := fun _ => answer })

def runOnce : List Action := call .runOnce none

def recover (answer : Option ToolProbeResult) : List Action := call .recover answer

def toolSucceeds (id : ℕ) : List Action := [.toolDone id (.ok ⟨.ofFields [], true⟩)]

def toolFails (id : ℕ) (errorClass : ErrorClass) : List Action :=
  [.toolDone id (.error (.domainError errorClass))]

def crash : List Action := [.crash]

/-! ## Checked runs -/

/-- Every step of a run passes a check. -/
def passes (check : World → Action → Bool) : World → List Action → Bool
  | _, [] => true
  | w, action :: rest => check w action && passes check (w.step deployment action) rest

/-- A run whose steps pass a check reaches what such steps reach. -/
theorem reachable_of_passes {permitted : World → Action → Prop} {check : World → Action → Bool}
    (hcheck : ∀ w action, check w action → permitted w action) {actions : List Action} :
    ∀ {w : World}, Reachable deployment permitted w → passes check w actions →
      Reachable deployment permitted (actions.foldl (World.step deployment) w) := by
  induction actions with
  | nil => exact fun h _ => h
  | cons action rest ih =>
      intro w h hpasses
      simp only [passes, Bool.and_eq_true] at hpasses
      exact ih (.step action h (hcheck w action hpasses.1)) hpasses.2

/-- A run of steps that are permitted whenever they are made. -/
theorem reachable_of_forall {permitted : World → Action → Prop} {actions : List Action}
    (h : ∀ action ∈ actions, ∀ w, permitted w action) :
    Reachable deployment permitted (World.after deployment 0 actions) := by
  induction actions using List.reverseRecOn with
  | nil => exact .initial 0
  | append_singleton actions action ih =>
      rw [World.after, List.foldl_append]
      exact .step action (ih fun other hother => h other (List.mem_append_left _ hother))
        (h action (List.mem_append_right _ List.mem_cons_self) _)

/-- What a run's view is seen to satisfy. -/
theorem exists_view {w : World} {P : RunView → Prop} [DecidablePred P]
    (h : (w.shared.view "r").any fun v => P v) : ∃ v, w.shared.view "r" = some v ∧ P v := by
  cases hv : w.shared.view "r" with
  | none => simp [hv] at h
  | some v => exact ⟨v, rfl, by simpa [hv] using h⟩

end ChangePilot.Sample
