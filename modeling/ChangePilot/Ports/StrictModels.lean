import ChangePilot.Library.Transaction
import ChangePilot.Ports.Tools

/-!
# Strict models

What a Pydantic model in strict mode makes of a payload: a list field takes a list only,
a tuple field a tuple only, and the field of a dictionary or of a nested model a `dict`
or an instance.  A field that is missing gets its default, which is not validated.

A sequence that is no list, and a mapping that is no dictionary, are only ever validated
into tuples (`Schema.validate_frozen`), and what holds no list, dictionary or model is
validated again into itself (`Schema.validate_again`).
-/

namespace ChangePilot

/-- A value without parts. -/
def Value.isScalar : Value → Bool
  | .none | .bool _ | .int _ | .float _ | .str _ | .bytes _ | .secretRef _ _ => true
  | _ => false

/-- The type of a scalar: what it makes of a value it accepts is a scalar, which it
accepts as it is. -/
structure ScalarType where
  validate : Value → Except String Value
  isScalar : ∀ value scalar, validate value = .ok scalar → scalar.isScalar = true
  again : ∀ value scalar, validate value = .ok scalar → validate scalar = .ok scalar

inductive Schema where
  | scalar (type : ScalarType)
  | list (item : Schema)
  /-- `tuple[item, ...]` -/
  | sequence (item : Schema)
  | tuple (items : List Schema)
  | dict (key : ScalarType) (item : Schema)
  | model (className : String) (fields : List (String × Schema × Option Value))

/-- The value of a field that a payload may lack. -/
def Schema.orDefault (default : Option Value) : Except String Value :=
  match default with
  | some value => .ok value
  | none => .error "Field required"

mutual

def Schema.validate : Schema → Value → Except String Value
  | .scalar type, value => type.validate value
  | .list item, .list items => do
      let items ← items.mapM (Schema.validate item)
      return .list items
  | .list _, _ => .error "Input should be a valid list"
  | .sequence item, .tuple items => do
      let items ← items.mapM (Schema.validate item)
      return .tuple items
  | .sequence _, _ => .error "Input should be a valid tuple"
  | .tuple schemas, .tuple items => do
      let items ← Schema.validateItems schemas items
      return .tuple items
  | .tuple _, _ => .error "Input should be a valid tuple"
  | .dict key item, .dict entries => do
      let entries ← entries.mapM fun entry => do
        return (← key.validate entry.1, ← Schema.validate item entry.2)
      return .dict entries
  | .dict _ _, _ => .error "Input should be a valid dictionary"
  | .model className fields, .dict entries => do
      let fields ← Schema.validateFields fields entries
      return .model className fields
  | .model className _, .model className' fields =>
      if className' = className then .ok (.model className' fields)
      else .error "Input should be a valid dictionary or an instance"
  | .model _ _, _ => .error "Input should be a valid dictionary or an instance"

def Schema.validateItems : List Schema → List Value → Except String (List Value)
  | [], [] => .ok []
  | schema :: schemas, item :: items => do
      let item ← Schema.validate schema item
      let items ← Schema.validateItems schemas items
      return item :: items
  | [], _ :: _ => .error "Tuple has too many items"
  | _ :: _, [] => .error "Field required"

def Schema.validateFields : List (String × Schema × Option Value) → List (Value × Value) →
    Except String (List (String × Value))
  | [], _ => .ok []
  | (name, schema, default) :: fields, entries => do
      let value ← (match Value.lookup name entries with
        | some value => Schema.validate schema value
        | none => Schema.orDefault default)
      let fields ← Schema.validateFields fields entries
      return (name, value) :: fields

end

/-- A strict model of named fields. -/
structure StrictModel where
  className : String
  fields : List (String × Schema × Option Value)
  nodup : (fields.map Prod.fst).Nodup

def StrictModel.modelType (model : StrictModel) : ModelType where
  modelFields := model.fields.map Prod.fst
  modelValidate payload := do
    let fields ← Schema.validateFields model.fields payload
    return .model model.className fields

/-! ## Frozen and plain values -/

mutual

/-- Neither a list nor a dictionary nor a model occurs in the value. -/
def Value.isFrozen : Value → Bool
  | .list _ | .dict _ | .model _ _ => false
  | .tuple items => Value.areFrozen items
  | .mappingProxy entries => Value.entriesFrozen entries
  | _ => true

def Value.areFrozen : List Value → Bool
  | [] => true
  | item :: rest => item.isFrozen && Value.areFrozen rest

def Value.entriesFrozen : List (Value × Value) → Bool
  | [] => true
  | (_, value) :: rest => value.isFrozen && Value.entriesFrozen rest

end

mutual

/-- The value is a scalar, or a tuple of such values. -/
def Value.isPlain : Value → Bool
  | .tuple items => Value.arePlain items
  | value => value.isScalar

def Value.arePlain : List Value → Bool
  | [] => true
  | item :: rest => item.isPlain && Value.arePlain rest

end

namespace Value

theorem areFrozen_iff {items : List Value} :
    areFrozen items = true ↔ ∀ item ∈ items, item.isFrozen = true := by
  induction items with
  | nil => simp [areFrozen]
  | cons item rest ih => simp [areFrozen, ih]

theorem entriesFrozen_iff {entries : List (Value × Value)} :
    entriesFrozen entries = true ↔ ∀ entry ∈ entries, entry.2.isFrozen = true := by
  induction entries with
  | nil => simp [entriesFrozen]
  | cons entry rest ih => simp [entriesFrozen, ih]

theorem arePlain_iff {items : List Value} :
    arePlain items = true ↔ ∀ item ∈ items, item.isPlain = true := by
  induction items with
  | nil => simp [arePlain]
  | cons item rest ih => simp [arePlain, ih]

theorem isPlain_of_isScalar {value : Value} (h : value.isScalar = true) : value.isPlain = true := by
  cases value with
  | tuple => cases h
  | _ => exact h

end Value

/-! ## Validating frozen values -/

mutual

/-- What a frozen value is validated into is plain. -/
theorem Schema.validate_frozen (schema : Schema) : ∀ {value validated : Value},
    value.isFrozen = true → schema.validate value = .ok validated → validated.isPlain = true := by
  intro value validated hfrozen h
  cases schema with
  | scalar type => exact Value.isPlain_of_isScalar (type.isScalar value validated h)
  -- a frozen value holds no list, and a strict model takes no other for one
  | list item =>
      cases value with
      | list => cases hfrozen
      | _ => cases h
  | sequence item =>
      cases value with
      | tuple items =>
          rw [Schema.validate] at h
          obtain ⟨validatedItems, hitems, h⟩ := Except.bind_eq_ok_iff.mp h
          obtain rfl := Except.ok.inj h
          -- every item is frozen, so every validated one is plain
          refine Value.arePlain_iff.mpr fun validated hvalidated => ?_
          obtain ⟨value, hvalue, hvalid⟩ := Except.exists_of_mem_mapM hitems hvalidated
          exact Schema.validate_frozen item (Value.areFrozen_iff.mp hfrozen value hvalue) hvalid
      | _ => cases h
  | tuple schemas =>
      cases value with
      | tuple items =>
          rw [Schema.validate] at h
          obtain ⟨validatedItems, hitems, h⟩ := Except.bind_eq_ok_iff.mp h
          obtain rfl := Except.ok.inj h
          exact Schema.validateItems_frozen schemas hfrozen hitems
      | _ => cases h
  | dict key item =>
      cases value with
      | dict => cases hfrozen
      | _ => cases h
  | model className fields =>
      cases value with
      | dict => cases hfrozen
      | model => cases hfrozen
      | _ => cases h
termination_by sizeOf schema

theorem Schema.validateItems_frozen (schemas : List Schema) : ∀ {items validated : List Value},
    Value.areFrozen items = true → Schema.validateItems schemas items = .ok validated →
      Value.arePlain validated = true := by
  intro items validated hfrozen h
  cases schemas with
  | nil =>
      cases items with
      | nil =>
          obtain rfl := Except.ok.inj h
          rfl
      | cons => cases h
  | cons schema schemas =>
      cases items with
      | nil => cases h
      | cons item items =>
          rw [Schema.validateItems] at h
          obtain ⟨first, hfirst, h⟩ := Except.bind_eq_ok_iff.mp h
          obtain ⟨rest, hrest, h⟩ := Except.bind_eq_ok_iff.mp h
          obtain rfl := Except.ok.inj h
          obtain ⟨hitem, hitems⟩ := (Bool.and_eq_true _ _).mp hfrozen
          exact (Bool.and_eq_true _ _).mpr ⟨Schema.validate_frozen schema hitem hfirst,
            Schema.validateItems_frozen schemas hitems hrest⟩
termination_by sizeOf schemas

end

mutual

/-- What is plain is validated again into itself. -/
theorem Schema.validate_again (schema : Schema) : ∀ {value validated : Value},
    schema.validate value = .ok validated → validated.isPlain = true →
      schema.validate validated = .ok validated := by
  intro value validated h hplain
  cases schema with
  | scalar type => exact type.again value validated h
  -- what a list is validated to is no plain value
  | list item =>
      cases value with
      | list items =>
          rw [Schema.validate] at h
          obtain ⟨_, _, h⟩ := Except.bind_eq_ok_iff.mp h
          obtain rfl := Except.ok.inj h
          cases hplain
      | _ => cases h
  | sequence item =>
      cases value with
      | tuple items =>
          rw [Schema.validate] at h
          obtain ⟨validatedItems, hitems, h⟩ := Except.bind_eq_ok_iff.mp h
          obtain rfl := Except.ok.inj h
          -- the items are validated to themselves
          have hagain : ∀ validated ∈ validatedItems,
              Schema.validate item validated = .ok validated := by
            intro validated hvalidated
            obtain ⟨value, hvalue, hvalid⟩ := Except.exists_of_mem_mapM hitems hvalidated
            exact Schema.validate_again item hvalid (Value.arePlain_iff.mp hplain _ hvalidated)
          rw [Schema.validate, Except.bind_of_eq_ok (Except.mapM_eq_ok hagain), List.map_id']
          rfl
      | _ => cases h
  | tuple schemas =>
      cases value with
      | tuple items =>
          rw [Schema.validate] at h
          obtain ⟨validatedItems, hitems, h⟩ := Except.bind_eq_ok_iff.mp h
          obtain rfl := Except.ok.inj h
          rw [Schema.validate,
            Except.bind_of_eq_ok (Schema.validateItems_again schemas hitems hplain)]
          rfl
      | _ => cases h
  | dict key item =>
      cases value with
      | dict entries =>
          rw [Schema.validate] at h
          obtain ⟨_, _, h⟩ := Except.bind_eq_ok_iff.mp h
          obtain rfl := Except.ok.inj h
          cases hplain
      | _ => cases h
  | model className fields =>
      cases value with
      | dict entries =>
          rw [Schema.validate] at h
          obtain ⟨_, _, h⟩ := Except.bind_eq_ok_iff.mp h
          obtain rfl := Except.ok.inj h
          cases hplain
      | model =>
          rw [Schema.validate] at h
          split at h
          · obtain rfl := Except.ok.inj h
            cases hplain
          · cases h
      | _ => cases h
termination_by sizeOf schema

theorem Schema.validateItems_again (schemas : List Schema) : ∀ {items validated : List Value},
    Schema.validateItems schemas items = .ok validated → Value.arePlain validated = true →
      Schema.validateItems schemas validated = .ok validated := by
  intro items validated h hplain
  cases schemas with
  | nil =>
      cases items with
      | nil =>
          obtain rfl := Except.ok.inj h
          rfl
      | cons => cases h
  | cons schema schemas =>
      cases items with
      | nil => cases h
      | cons item items =>
          rw [Schema.validateItems] at h
          obtain ⟨first, hfirst, h⟩ := Except.bind_eq_ok_iff.mp h
          obtain ⟨rest, hrest, h⟩ := Except.bind_eq_ok_iff.mp h
          obtain rfl := Except.ok.inj h
          obtain ⟨hitem, hitems⟩ := (Bool.and_eq_true _ _).mp hplain
          rw [Schema.validateItems, Except.bind_of_eq_ok (Schema.validate_again schema hfirst hitem),
            Except.bind_of_eq_ok (Schema.validateItems_again schemas hrest hitems)]
          rfl
termination_by sizeOf schemas

end

/-! ## Validating fields -/

/-- The field is given and valid, or missing and has its default. -/
def Schema.FieldValue (entries : List (Value × Value)) (field : String × Schema × Option Value)
    (value : Value) : Prop :=
  (∃ given, Value.lookup field.1 entries = some given ∧
    Schema.validate field.2.1 given = .ok value) ∨
  (Value.lookup field.1 entries = none ∧ field.2.2 = some value)

theorem Schema.validateFields_eq_ok_iff {fields : List (String × Schema × Option Value)}
    {entries : List (Value × Value)} : ∀ {validated : List (String × Value)},
    Schema.validateFields fields entries = .ok validated ↔
      List.Forall₂ (fun field entry => field.1 = entry.1 ∧ Schema.FieldValue entries field entry.2)
        fields validated := by
  induction fields with
  | nil =>
      intro validated
      simp [Schema.validateFields, eq_comm]
  | cons field fields ih =>
      obtain ⟨name, schema, default⟩ := field
      intro validated
      have hvalue : ∀ value, (match Value.lookup name entries with
          | some value => Schema.validate schema value
          | none => Schema.orDefault default) = .ok value ↔
            Schema.FieldValue entries (name, schema, default) value := by
        intro value
        cases hlookup : Value.lookup name entries with
        | some given => simp [Schema.FieldValue, hlookup]
        | none => cases default <;> simp [Schema.FieldValue, hlookup, Schema.orDefault]
      simp only [Schema.validateFields, Except.bind_eq_ok_iff, Except.pure_eq_ok_iff, hvalue, ih,
        List.forall₂_cons_left_iff]
      constructor
      · rintro ⟨value, hfield, rest, hrest, rfl⟩
        exact ⟨(name, value), rest, ⟨rfl, hfield⟩, hrest, rfl⟩
      · rintro ⟨⟨_, value⟩, rest, ⟨rfl, hfield⟩, hrest, rfl⟩
        exact ⟨value, hfield, rest, hrest, rfl⟩

theorem StrictModel.modelValidate_eq_ok_iff {model : StrictModel} {payload : List (Value × Value)}
    {value : Value} : model.modelType.modelValidate payload = .ok value ↔
      ∃ fields, Schema.validateFields model.fields payload = .ok fields ∧
        value = .model model.className fields := by
  simp only [modelType, Except.bind_eq_ok_iff, Except.pure_eq_ok_iff, @eq_comm _ value]

end ChangePilot
