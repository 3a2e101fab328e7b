import ChangePilot.Guarantees.Reloading
import ChangePilot.Ports.StrictModels

/-!
# Stored arguments at dispatch

The arguments of a definition are frozen: lists have become tuples, and dictionaries and
models read-only mappings.  A strict model takes them back exactly if the arguments were
without any of these.

`Carries` says what freezing and, for a definition that was reloaded, writing and reading
make of the fields of a model: each is found again, frozen, and as it was if it was plain.
Validation of such entries is decided by the fields alone
(`StrictModel.validateFields_carried_iff`), so that the direct way and the one through the
store are the same from there on.
-/

namespace ChangePilot

/-! ## Freezing -/

mutual

theorem isFrozen_freeze_materialize : ∀ value : Value,
    (freezeValue (materializeCoercedValue value)).isFrozen = true := by
  intro value
  cases value with
  | model _ fields => exact entriesFrozen_freeze_materializeFields fields
  | dict entries | mappingProxy entries => exact entriesFrozen_freeze_materializeEntries entries
  | list items | tuple items => exact areFrozen_freeze_materialize items
  | _ => rfl

theorem areFrozen_freeze_materialize : ∀ items : List Value,
    Value.areFrozen (freezeItems (materializeItems items)) = true := by
  intro items
  cases items with
  | nil => rfl
  | cons item rest =>
      exact (Bool.and_eq_true _ _).mpr
        ⟨isFrozen_freeze_materialize item, areFrozen_freeze_materialize rest⟩

theorem entriesFrozen_freeze_materializeFields : ∀ fields : List (String × Value),
    Value.entriesFrozen (freezeEntries (materializeFields fields)) = true := by
  intro fields
  cases fields with
  | nil => rfl
  | cons field rest =>
      obtain ⟨name, value⟩ := field
      exact (Bool.and_eq_true _ _).mpr
        ⟨isFrozen_freeze_materialize value, entriesFrozen_freeze_materializeFields rest⟩

theorem entriesFrozen_freeze_materializeEntries : ∀ entries : List (Value × Value),
    Value.entriesFrozen (freezeEntries (materializeEntries entries)) = true := by
  intro entries
  cases entries with
  | nil => rfl
  | cons entry rest =>
      obtain ⟨key, value⟩ := entry
      exact (Bool.and_eq_true _ _).mpr
        ⟨isFrozen_freeze_materialize value, entriesFrozen_freeze_materializeEntries rest⟩

end

mutual

/-- Freezing leaves a plain value as it is. -/
theorem freeze_materialize_plain : ∀ value : Value, value.isPlain = true →
    freezeValue (materializeCoercedValue value) = value := by
  intro value h
  cases value with
  | tuple items => exact congrArg Value.tuple (freeze_materializeItems_plain items h)
  | none | bool | int | float | str | bytes | secretRef => rfl
  | _ => cases h

theorem freeze_materializeItems_plain : ∀ items : List Value, Value.arePlain items = true →
    freezeItems (materializeItems items) = items := by
  intro items h
  cases items with
  | nil => rfl
  | cons item rest =>
      obtain ⟨hitem, hrest⟩ := (Bool.and_eq_true _ _).mp h
      exact congrArg₂ List.cons (freeze_materialize_plain item hitem)
        (freeze_materializeItems_plain rest hrest)

end

mutual

theorem containsUnavailable_plain : ∀ value : Value, value.isPlain = true →
    containsUnavailableSecretRef value = false := by
  intro value h
  cases value with
  | tuple items => exact anyItemUnavailable_plain items h
  | none | bool | int | float | str | bytes | secretRef => rfl
  | _ => cases h

theorem anyItemUnavailable_plain : ∀ items : List Value, Value.arePlain items = true →
    anyItemUnavailable items = false := by
  intro items h
  cases items with
  | nil => rfl
  | cons item rest =>
      obtain ⟨hitem, hrest⟩ := (Bool.and_eq_true _ _).mp h
      rw [anyItemUnavailable, containsUnavailable_plain item hitem,
        anyItemUnavailable_plain rest hrest]
      rfl

end

theorem anyEntryUnavailable_plain {entries : List (Value × Value)}
    (h : ∀ entry ∈ entries, entry.2.isPlain = true) : anyEntryUnavailable entries = false := by
  induction entries with
  | nil => rfl
  | cons entry rest ih =>
      obtain ⟨hentry, hrest⟩ := List.forall_mem_cons.mp h
      rw [anyEntryUnavailable, containsUnavailable_plain entry.2 hentry, ih hrest]
      rfl

theorem freeze_materializeFields_eq_map (fields : List (String × Value)) :
    freezeEntries (materializeFields fields) =
      fields.map fun field => (.str field.1, freezeValue (materializeCoercedValue field.2)) := by
  induction fields with
  | nil => rfl
  | cons field rest ih => rw [materializeFields, freezeEntries, ih, List.map_cons]

/-! ## Equal values -/

namespace Value

/-- What equals a frozen value is frozen. -/
theorem Equals.isFrozen {a b : Value} (h : a.Equals b) (hfrozen : a.isFrozen = true) :
    b.isFrozen = true := by
  induction hsize : sizeOf a using Nat.strong_induction_on generalizing a b with
  | _ size ih =>
      subst hsize
      cases h with
      | refl => exact hfrozen
      | tuple hitems =>
          refine areFrozen_iff.mpr fun item' hitem' => ?_
          obtain ⟨item, hitem, hequals⟩ := exists_of_mem_right hitems hitem'
          have hlt := List.sizeOf_lt_of_mem hitem
          refine ih (sizeOf item) ?_ hequals (areFrozen_iff.mp hfrozen item hitem) rfl
          rw [tuple.sizeOf_spec]
          omega
      | mappingProxy hperm hkeys hvalues =>
          refine entriesFrozen_iff.mpr fun entry' hentry' => ?_
          obtain ⟨⟨key, value⟩, hentry, -, hequals⟩ :=
            exists_of_mem_right (forall₂_of_keys_of_values hkeys hvalues) hentry'
          have hmem := hperm.mem_iff.mpr hentry
          have hlt := List.sizeOf_lt_of_mem hmem
          refine ih (sizeOf value) ?_ hequals (entriesFrozen_iff.mp hfrozen _ hmem) rfl
          rw [Prod.mk.sizeOf_spec] at hlt
          rw [mappingProxy.sizeOf_spec]
          omega

/-- What equals a plain value is that value. -/
theorem Equals.eq_of_plain {a b : Value} (h : a.Equals b) (hplain : a.isPlain = true) : a = b := by
  induction hsize : sizeOf a using Nat.strong_induction_on generalizing a b with
  | _ size ih =>
      subst hsize
      cases h with
      | refl => rfl
      | @tuple items items' hitems =>
          have heq : List.Forall₂ (fun item item' => item = item') items items' := by
            refine forall₂_imp_of_mem hitems fun item hitem item' _ hequals => ?_
            have hlt := List.sizeOf_lt_of_mem hitem
            refine ih (sizeOf item) ?_ hequals (arePlain_iff.mp hplain item hitem) rfl
            rw [tuple.sizeOf_spec]
            omega
          rw [List.forall₂_eq_eq_eq] at heq
          rw [heq]
      | mappingProxy => cases hplain

/-- Without secrets nothing is lost. -/
theorem FrozenJson.loseSecrets_eq {value : Value} (h : value.FrozenJson) :
    (∀ path, value.secretAt path = Option.none) → loseSecrets value = value := by
  induction h with
  | none | bool | int | float | str => exact fun _ => rfl
  | secretRef => exact fun h => nomatch h []
  | @tuple items _ ih =>
      intro h
      rw [loseSecrets, loseSecretItems_eq_map]
      refine congrArg Value.tuple ((List.map_congr_left fun item hitem => ?_).trans (List.map_id _))
      obtain ⟨position, hposition⟩ := List.mem_iff_getElem?.mp hitem
      refine ih item hitem fun path => ?_
      have hpath := h (.index position :: path)
      rwa [secretAt, hposition, Option.bind_some] at hpath
  | @mappingProxy entries hnodup hkeys _ ih =>
      intro h
      rw [loseSecrets, loseSecretEntries_eq_map]
      refine congrArg Value.mappingProxy
        ((List.map_congr_left fun entry hentry => ?_).trans (List.map_id _))
      obtain ⟨name, hname⟩ := hkeys entry hentry
      refine congrArg (Prod.mk entry.1) (ih entry hentry fun path => ?_)
      have hitem : (.str name, entry.2) ∈ entries := hname ▸ hentry
      have hpath := h (.key name :: path)
      rwa [secretAt, lookup_of_mem hnodup hitem, Option.bind_some] at hpath

end Value

/-! ## Validating stored arguments -/

theorem forall₂_both {α β : Type} {R S : α → β → Prop} {xs : List α} {ys : List β}
    (hR : List.Forall₂ R xs ys) (hS : List.Forall₂ S xs ys) :
    List.Forall₂ (fun x y => R x y ∧ S x y) xs ys := by
  rw [List.forall₂_iff_get] at hR hS ⊢
  exact ⟨hR.1, fun i hi hi' => ⟨hR.2 i hi hi', hS.2 i hi hi'⟩⟩

/-- The entries are frozen values under the names of the fields, and plain ones as they are. -/
structure Carries (entries : List (Value × Value)) (fields : List (String × Value)) : Prop where
  nodup : (entries.map Prod.fst).Nodup
  named : ∀ entry ∈ entries, ∃ field ∈ fields, entry.1 = .str field.1
  found : ∀ field ∈ fields, ∃ value, Value.lookup field.1 entries = some value ∧
    value.isFrozen = true ∧ (field.2.isPlain = true → value = field.2)

/-- The validated fields are plain, and what the payload lacks has a default that is valid. -/
structure StrictModel.Plain (model : StrictModel) (payload : List (Value × Value))
    (fields : List (String × Value)) : Prop where
  fields : ∀ field ∈ fields, field.2.isPlain = true
  defaults : ∀ field ∈ model.fields, Value.lookup field.1 payload = none →
    ∀ default ∈ field.2.2, Schema.validate field.2.1 default = .ok default

theorem Schema.names_of_validateFields {model : StrictModel} {payload : List (Value × Value)}
    {fields : List (String × Value)} (h : Schema.validateFields model.fields payload = .ok fields) :
    fields.map Prod.fst = model.fields.map Prod.fst := by
  rw [Schema.validateFields_eq_ok_iff] at h
  rw [eq_comm, ← List.forall₂_eq_eq_eq, List.forall₂_map_left_iff, List.forall₂_map_right_iff]
  exact h.imp fun _ _ hfield => hfield.1

/-- Frozen entries are validated into the fields they carry exactly if these are plain. -/
theorem StrictModel.validateFields_carried_iff {model : StrictModel}
    {payload entries : List (Value × Value)} {fields : List (String × Value)}
    (hvalid : Schema.validateFields model.fields payload = .ok fields)
    (hcarries : Carries entries fields) :
    Schema.validateFields model.fields entries = .ok fields ↔ model.Plain payload fields := by
  rw [Schema.validateFields_eq_ok_iff] at hvalid
  rw [Schema.validateFields_eq_ok_iff]
  constructor
  · intro hagain
    -- what was given back is frozen, so what is validated from it is plain
    have hplain : ∀ field ∈ fields, field.2.isPlain = true := by
      intro field hfield
      obtain ⟨declared, -, hname, hvalue⟩ := exists_of_mem_right hagain hfield
      obtain ⟨value, hfound, hfrozen, -⟩ := hcarries.found field hfield
      rw [← hname] at hfound
      obtain ⟨given, hgiven, hvalidated⟩ | ⟨hmissing, -⟩ := hvalue
      · obtain rfl := Option.some.inj (hgiven.symm.trans hfound)
        exact Schema.validate_frozen declared.2.1 hfrozen hvalidated
      · cases hmissing.symm.trans hfound
    -- a default that was filled in is given the next time
    refine ⟨hplain, fun declared hdeclared hmissing default hdefault => ?_⟩
    obtain ⟨field, hfield, hboth⟩ := exists_of_mem_right
      (List.Forall₂.flip (forall₂_both hvalid hagain)) hdeclared
    obtain ⟨⟨hname, hvalue⟩, -, hvalue'⟩ := hboth
    obtain ⟨value, hfound, -, hsame⟩ := hcarries.found field hfield
    obtain rfl := hsame (hplain field hfield)
    have hfilled : default = field.2 := by
      obtain ⟨given, hgiven, -⟩ | ⟨-, heq⟩ := hvalue
      · cases hgiven.symm.trans hmissing
      · exact Option.some.inj (hdefault.symm.trans heq)
    rw [← hname] at hfound
    obtain ⟨given, hgiven, hvalidated⟩ | ⟨hmissing, -⟩ := hvalue'
    · obtain rfl := Option.some.inj (hgiven.symm.trans hfound)
      rwa [hfilled]
    · cases hmissing.symm.trans hfound
  -- plain values are read as they are, and validated to themselves
  · rintro ⟨hplain, hdefaults⟩
    refine forall₂_imp_of_mem hvalid fun declared hdeclared field hfield ⟨hname, hvalue⟩ => ?_
    obtain ⟨value, hfound, -, hsame⟩ := hcarries.found field hfield
    obtain rfl := hsame (hplain field hfield)
    refine ⟨hname, .inl ⟨field.2, hname ▸ hfound, ?_⟩⟩
    obtain ⟨given, -, hvalidated⟩ | ⟨hmissing, hdefault⟩ := hvalue
    · exact Schema.validate_again declared.2.1 hvalidated (hplain field hfield)
    · exact hdefaults declared hdeclared hmissing field.2 hdefault

section

variable {runtime : Runtime} {registry : ToolRegistry} {name version : String}
  {descriptor : ToolDescriptor} {model : StrictModel}

/-- What is coerced by a strict model. -/
theorem ToolRegistry.coerceArguments_strict_iff {payload : List (Value × Value)}
    {arguments value : Value} (htool : registry.tools name version = some descriptor)
    (hmodel : descriptor.inputModel = model.modelType) (hentries : arguments.entries? = some payload) :
    registry.coerceArguments runtime name version arguments = .ok value ↔
      anyEntryUnavailable payload = false ∧
      rejectUnexpectedFields runtime "arguments" payload model.modelType = .ok () ∧
      ∃ fields, Schema.validateFields model.fields payload = .ok fields ∧
        value = .model model.className fields := by
  have hvalidate : validateModel "arguments" model.modelType payload = .ok value ↔
      ∃ fields, Schema.validateFields model.fields payload = .ok fields ∧
        value = .model model.className fields := by
    rw [← StrictModel.modelValidate_eq_ok_iff, validateModel]
    cases model.modelType.modelValidate payload <;> simp
  have hdescriptor : registry.descriptorFor name version = .ok descriptor := by
    rw [descriptorFor, htool]
  have hpayload : requireMapping "arguments" arguments = .ok payload := by
    rw [requireMapping, hentries]
  rw [coerceArguments, Except.bind_of_eq_ok hdescriptor, Except.bind_of_eq_ok hpayload, hmodel]
  rw [show containsUnavailableSecretRef (.dict payload) = anyEntryUnavailable payload from rfl]
  cases anyEntryUnavailable payload with
  | true => simp
  | false =>
      rw [if_neg Bool.false_ne_true, Except.bind_unit_eq_ok_iff, hvalidate]
      simp

/-- Frozen entries are coerced to the fields they carry exactly if these are plain. -/
theorem ToolRegistry.coerceArguments_carried_iff (hempty : runtime.sorted [] = .ok [])
    (htool : registry.tools name version = some descriptor)
    (hmodel : descriptor.inputModel = model.modelType) {payload entries : List (Value × Value)}
    {fields : List (String × Value)}
    (hvalid : Schema.validateFields model.fields payload = .ok fields)
    (hcarries : Carries entries fields) :
    registry.coerceArguments runtime name version (.mappingProxy entries) =
      .ok (.model model.className fields) ↔ model.Plain payload fields := by
  rw [coerceArguments_strict_iff htool hmodel rfl,
    ← StrictModel.validateFields_carried_iff hvalid hcarries]
  constructor
  · rintro ⟨-, -, fields', hvalid', heq⟩
    obtain ⟨-, rfl⟩ := Value.model.inj heq
    exact hvalid'
  · intro hagain
    refine ⟨anyEntryUnavailable_plain fun entry hentry => ?_, ?_, fields, hagain, rfl⟩
    · have hplain := ((StrictModel.validateFields_carried_iff hvalid hcarries).mp hagain).fields
      obtain ⟨field, hfield, hname⟩ := hcarries.named entry hentry
      obtain ⟨value, hfound, -, hsame⟩ := hcarries.found field hfield
      obtain rfl := hsame (hplain field hfield)
      have hentry' : (Value.str field.1, entry.2) ∈ entries := hname ▸ hentry
      rw [Value.lookup_of_mem hcarries.nodup hentry'] at hfound
      rw [Option.some.inj hfound]
      exact hplain field hfield
    · have hnames : fields.map Prod.fst = model.modelType.modelFields :=
        Schema.names_of_validateFields hvalid
      have hnone {g : Value × Value → Option Value}
          (hg : ∀ field ∈ fields, ∀ value, g (.str field.1, value) = none) :
          entries.filterMap g = [] := by
        refine List.filterMap_eq_nil_iff.mpr fun entry hentry => ?_
        obtain ⟨field, hfield, hname⟩ := hcarries.named entry hentry
        obtain ⟨key, value⟩ := entry
        obtain rfl : key = .str field.1 := hname
        exact hg field hfield value
      rw [rejectUnexpectedFields, hnone, Except.bind_of_eq_ok hempty]
      · rfl
      · exact fun field hfield value => if_pos (hnames ▸ List.mem_map_of_mem hfield)

end

/-! ## What is carried -/

/-- The frozen entries of an accepted step carry its fields. -/
theorem carries_frozen {fields : List (String × Value)} (hnodup : (fields.map Prod.fst).Nodup) :
    Carries (freezeEntries (materializeFields fields)) fields := by
  rw [freeze_materializeFields_eq_map]
  have hkeys : ((fields.map fun field => (Value.str field.1,
      freezeValue (materializeCoercedValue field.2))).map Prod.fst).Nodup := by
    have hmapped := hnodup.map fun _ _ => Value.str.inj
    rw [List.map_map] at hmapped ⊢
    exact hmapped
  refine ⟨hkeys, List.forall_mem_map.mpr fun field hfield => ⟨field, hfield, rfl⟩, ?_⟩
  intro field hfield
  refine ⟨freezeValue (materializeCoercedValue field.2), ?_,
    isFrozen_freeze_materialize field.2, freeze_materialize_plain field.2⟩
  exact Value.lookup_of_mem hkeys (List.mem_map_of_mem
    (f := fun field : String × Value => (Value.str field.1,
      freezeValue (materializeCoercedValue field.2))) hfield)

/-- Equal entries carry the same fields. -/
theorem Carries.of_equals {entries : List (Value × Value)} {fields : List (String × Value)}
    {arguments : Value} (h : Carries entries fields)
    (hequals : (Value.mappingProxy entries).Equals arguments) :
    ∃ entries', arguments = .mappingProxy entries' ∧ Carries entries' fields := by
  cases hequals with
  | refl => exact ⟨entries, rfl, h⟩
  | @mappingProxy _ permuted entries' hperm hkeys hvalues =>
      have hrelated := forall₂_of_keys_of_values hkeys hvalues
      have hnodup : (entries'.map Prod.fst).Nodup :=
        hkeys ▸ (hperm.map Prod.fst).nodup_iff.mp h.nodup
      refine ⟨entries', rfl, hnodup, fun entry' hentry' => ?_, fun field hfield => ?_⟩
      · obtain ⟨entry, hentry, hkey, -⟩ := exists_of_mem_right hrelated hentry'
        rw [← hkey]
        exact h.named entry (hperm.mem_iff.mpr hentry)
      · obtain ⟨value, hfound, hfrozen, hsame⟩ := h.found field hfield
        have hmem := hperm.mem_iff.mp (Value.mem_of_lookup hfound)
        obtain ⟨entry', hentry', hkey, hequal⟩ :=
          exists_of_mem_right (List.Forall₂.flip hrelated) hmem
        have hentry : (Value.str field.1, entry'.2) ∈ entries' := by
          rw [show Value.str field.1 = entry'.1 from hkey]
          exact hentry'
        refine ⟨entry'.2, Value.lookup_of_mem hnodup hentry, hequal.isFrozen hfrozen, ?_⟩
        intro hplain
        have hvalue := hsame hplain
        rw [← hequal.eq_of_plain (hvalue.symm ▸ hplain)]
        exact hvalue

/-! ## Accepted steps -/

/-- The entries of the raw step of a payload that has the id. -/
def Value.RawStep (payload : Value) (stepId : String) (mapping : List (Value × Value)) : Prop :=
  ∃ entries rawSteps rawStep, payload.entries? = some entries ∧
    Value.field entries "steps" .none = .list rawSteps ∧ rawStep ∈ rawSteps ∧
    rawStep.entries? = some mapping ∧ Value.field mapping "id" .none = .str stepId

section

variable {runtime : Runtime} {registry : ToolRegistry}

/-- A step is read off the raw step with its id. -/
theorem readFrom_of_rawStep {payload : Value} {definition : WorkflowDefinition}
    (h : WorkflowDefinition.fromMapping runtime registry payload = .ok definition)
    {step : StepDefinition} (hstep : step ∈ definition.steps) {mapping : List (Value × Value)}
    (hraw : payload.RawStep step.id mapping) : step.ReadFrom runtime registry mapping := by
  obtain ⟨entries, rawSteps, steps, hentries, hread⟩ := fromMapping_eq_ok_iff.mp h
  obtain ⟨entries', rawSteps', rawStep, hentries', hlisted, hmem, hmapping, hid⟩ := hraw
  rw [ChangePilot.requireMapping, hentries'] at hentries
  obtain rfl := Except.ok.inj hentries
  obtain rfl := Value.list.inj (hlisted.symm.trans hread.listed)
  obtain ⟨other, hother, mapping', hmapping', hfrom⟩ :=
    exists_of_mem_right (List.Forall₂.flip hread.read) hmem
  rw [ChangePilot.requireMapping, hmapping] at hmapping'
  obtain rfl := Except.ok.inj hmapping'
  have hsame : other.id = step.id :=
    Value.str.inj ((requireString_eq_ok_iff.mp hfrom.id).1.symm.trans hid)
  have hother' : other ∈ definition.steps := by
    rw [hread.steps, mem_sortSteps]
    exact hother
  rwa [definition.eq_of_id_eq hother' hstep hsame] at hfrom

theorem coerceArguments_of_coerceStepArguments {stepId : String} {tool : ToolReference}
    {rawArguments arguments : List (Value × Value)} {descriptor : ToolDescriptor}
    {model : StrictModel} (htool : registry.tools tool.name tool.version = some descriptor)
    (hmodel : descriptor.inputModel = model.modelType)
    (h : coerceStepArguments runtime registry stepId tool rawArguments = .ok arguments) :
    ∃ fields, Schema.validateFields model.fields rawArguments = .ok fields ∧
      registry.coerceArguments runtime tool.name tool.version (.dict rawArguments) =
        .ok (.model model.className fields) ∧ arguments = materializeFields fields := by
  unfold coerceStepArguments at h
  cases hcoerced : registry.coerceArguments runtime tool.name tool.version (.dict rawArguments) with
  | error error =>
      rw [hcoerced] at h
      cases h
  | ok value =>
      obtain ⟨-, -, fields, hvalid, rfl⟩ :=
        (ToolRegistry.coerceArguments_strict_iff htool hmodel rfl).mp hcoerced
      rw [hcoerced] at h
      exact ⟨fields, hvalid, rfl, (Except.ok.inj h).symm⟩

/-- Dispatch coerces the arguments of the step to `value`, and does so again once the
definition has been saved and reloaded, if it has no secrets. -/
def StaysExecutable (runtime : Runtime) (registry : ToolRegistry) (definition : WorkflowDefinition)
    (step : StepDefinition) (value : Value) : Prop :=
  registry.coerceArguments runtime step.tool.name step.tool.version step.arguments = .ok value ∧
  (definition.HasJsonArguments → (∀ path, step.arguments.secretAt path = none) →
    ∃ stored reloaded, jsonRoundTrip (definitionToMapping definition) = some (.dict stored) ∧
      definitionFromMapping runtime stored = .ok reloaded ∧
      ∃ other ∈ reloaded.steps, other.id = step.id ∧
        registry.coerceArguments runtime step.tool.name step.tool.version other.arguments =
          .ok value)

/-- Stored arguments that equal frozen ones without secrets carry the same fields. -/
theorem exists_reloaded_carries (hsorts : runtime.SortsKeys) {definition : WorkflowDefinition}
    (hstorable : definition.Storable runtime) {step : StepDefinition}
    (hstep : step ∈ definition.steps) (hsecret : ∀ path, step.arguments.secretAt path = none)
    {entries : List (Value × Value)} (harguments : step.arguments = .mappingProxy entries)
    {fields : List (String × Value)} (hcarries : Carries entries fields) :
    ∃ stored reloaded, jsonRoundTrip (definitionToMapping definition) = some (.dict stored) ∧
      definitionFromMapping runtime stored = .ok reloaded ∧
      ∃ other ∈ reloaded.steps, other.id = step.id ∧
        ∃ entries', other.arguments = .mappingProxy entries' ∧ Carries entries' fields := by
  obtain ⟨stored, reloaded, hstored, hreloaded, hequals, -⟩ := hstorable.exists_reloaded hsorts
  refine ⟨stored, reloaded, hstored, hreloaded, ?_⟩
  have hlost : step.withSecretsLost ∈ definition.withSecretsLost.steps := List.mem_map_of_mem hstep
  obtain ⟨other, hother, hequal⟩ := exists_of_mem_right (List.Forall₂.flip hequals.steps) hlost
  refine ⟨other, hother, hequal.id.symm, hcarries.of_equals ?_⟩
  have hsame := hequal.arguments
  rwa [StepDefinition.withSecretsLost, (hstorable.steps step hstep).frozenJson.loseSecrets_eq hsecret,
    harguments] at hsame

end

namespace Sample

/-- Texts. -/
def textType : ScalarType where
  validate
    | .str text => .ok (.str text)
    | _ => .error "Input should be a valid string"
  isScalar value scalar h := by
    cases value with
    | str => obtain rfl := Except.ok.inj h; rfl
    | _ => cases h
  again value scalar h := by
    cases value with
    | str => obtain rfl := Except.ok.inj h; rfl
    | _ => cases h

/-- A model with a list of texts, and with a pair of texts. -/
def tagModel : StrictModel where
  className := "Tags"
  fields := [("tags", .list (.scalar textType), some (.list [])),
    ("pair", .tuple [.scalar textType, .scalar textType], none)]
  nodup := by decide

def pairModel : StrictModel where
  className := "Pair"
  fields := [("pair", .tuple [.scalar textType, .scalar textType], none)]
  nodup := by decide

def taggingRegistry : ToolRegistry where
  tools name version :=
    if version = "1" ∧ name = "tag" then some (tool name tagModel.modelType .low .supported)
    else if version = "1" ∧ name = "pair" then some (tool name pairModel.modelType .low .supported)
    else none

/-- A payload with one step that calls a tool. -/
def callPayload (name : String) (arguments : Value) : Value :=
  .ofFields [("definition_id", .str "d"), ("version", .int 1),
    ("steps", .list [.ofFields [("id", .str "s"), ("tool", toolPayload name),
      ("arguments", arguments)]])]

end Sample

/-- The stored arguments of a step stay executable exactly if the validated fields are scalars
and tuples of these, and no default that was filled in is invalid. -/
theorem stored_arguments_stay_executable_iff (runtime : Runtime) (hsorts : runtime.SortsKeys)
    (hempty : runtime.sorted [] = .ok []) (registry : ToolRegistry) (payload : Value)
    (definition : WorkflowDefinition)
    (h : WorkflowDefinition.fromMapping runtime registry payload = .ok definition)
    (step : StepDefinition) (hstep : step ∈ definition.steps) (descriptor : ToolDescriptor)
    (htool : registry.tools step.tool.name step.tool.version = some descriptor)
    (model : StrictModel) (hmodel : descriptor.inputModel = model.modelType)
    (mapping rawArguments : List (Value × Value)) (hraw : payload.RawStep step.id mapping)
    (harguments : (Value.field mapping "arguments" (.dict [])).entries? = some rawArguments) :
    ∃ fields, registry.coerceArguments runtime step.tool.name step.tool.version
        (.dict rawArguments) = .ok (.model model.className fields) ∧
      (StaysExecutable runtime registry definition step (.model model.className fields) ↔
        model.Plain rawArguments fields) := by
  obtain ⟨rawArguments', arguments, hrequired, hcoerced, hfrozen⟩ :=
    (readFrom_of_rawStep h hstep hraw).arguments
  rw [requireMapping, harguments] at hrequired
  obtain rfl := Except.ok.inj hrequired
  obtain ⟨fields, hvalid, hcoerce, rfl⟩ :=
    coerceArguments_of_coerceStepArguments htool hmodel hcoerced
  have hnodup : (fields.map Prod.fst).Nodup :=
    Schema.names_of_validateFields hvalid ▸ model.nodup
  have hcarries := carries_frozen hnodup
  have hentries : step.arguments = .mappingProxy (freezeEntries (materializeFields fields)) := hfrozen
  refine ⟨fields, hcoerce, ?_⟩
  unfold StaysExecutable
  rw [hentries, ToolRegistry.coerceArguments_carried_iff hempty htool hmodel hvalid hcarries,
    and_iff_left_iff_imp]
  intro hplain hjson hsecret
  obtain ⟨stored, reloaded, hstored, hreloaded, other, hother, hid, entries', hentries', hcarries'⟩ :=
    exists_reloaded_carries hsorts (storable_of_fromMapping h hjson) hstep (hentries ▸ hsecret)
      hentries hcarries
  refine ⟨stored, reloaded, hstored, hreloaded, other, hother, hid, ?_⟩
  rw [hentries', ToolRegistry.coerceArguments_carried_iff hempty htool hmodel hvalid hcarries']
  exact hplain

/-- A pair of texts stays executable. -/
theorem stored_arguments_stay_executable_iff_pair : ∃ definition step value,
    WorkflowDefinition.fromMapping Sample.canonicalRuntime Sample.taggingRegistry
      (Sample.callPayload "pair" (.ofFields [("pair", .tuple [.str "a", .str "b"])])) =
        .ok definition ∧
    step ∈ definition.steps ∧
    StaysExecutable Sample.canonicalRuntime Sample.taggingRegistry definition step value := by
  obtain ⟨definition, hdefinition, step, hsteps, hid, htool⟩ : ∃ definition,
      WorkflowDefinition.fromMapping Sample.canonicalRuntime Sample.taggingRegistry
        (Sample.callPayload "pair" (.ofFields [("pair", .tuple [.str "a", .str "b"])])) =
          .ok definition ∧ ∃ step, definition.steps = [step] ∧ step.id = "s" ∧
            step.tool = ⟨"pair", "1"⟩ := ⟨_, rfl, _, rfl, rfl, rfl⟩
  have hstep : step ∈ definition.steps := hsteps ▸ List.mem_cons_self
  have hregistered : Sample.taggingRegistry.tools step.tool.name step.tool.version =
      some (Sample.tool "pair" Sample.pairModel.modelType .low .supported) := by
    rw [htool]
    rfl
  obtain ⟨fields, hcoerced, hiff⟩ := stored_arguments_stay_executable_iff Sample.canonicalRuntime
    Sample.canonicalRuntime_sortsKeys rfl Sample.taggingRegistry _ definition hdefinition step hstep _
    hregistered Sample.pairModel rfl _ _
    ⟨_, _, _, rfl, rfl, List.mem_cons_self, rfl, congrArg Value.str hid.symm⟩ rfl
  have hfields : fields = [("pair", .tuple [.str "a", .str "b"])] := by
    rw [htool] at hcoerced
    exact (Value.model.inj (Except.ok.inj hcoerced)).2.symm
  refine ⟨definition, step, _, hdefinition, hstep, hiff.mpr ⟨?_, ?_⟩⟩
  · rw [hfields]
    exact List.forall_mem_singleton.mpr rfl
  · exact List.forall_mem_singleton.mpr fun hmissing => nomatch hmissing

/-- A list is accepted, and refused at dispatch. -/
theorem frozen_list_is_refused : ∃ definition step value error,
    WorkflowDefinition.fromMapping Sample.canonicalRuntime Sample.taggingRegistry
      (Sample.callPayload "tag" (.ofFields [("tags", .list [.str "a"]),
        ("pair", .tuple [.str "a", .str "b"])])) = .ok definition ∧
    step ∈ definition.steps ∧
    Sample.taggingRegistry.coerceArguments Sample.canonicalRuntime "tag" "1"
      (.ofFields [("tags", .list [.str "a"]), ("pair", .tuple [.str "a", .str "b"])]) = .ok value ∧
    Sample.taggingRegistry.coerceArguments Sample.canonicalRuntime "tag" "1" step.arguments =
      .error error ∧
    ¬ StaysExecutable Sample.canonicalRuntime Sample.taggingRegistry definition step value := by
  refine ⟨_, _, _, _, rfl, List.mem_cons_self, rfl, rfl, ?_⟩
  rintro ⟨h, -⟩
  cases h

end ChangePilot
