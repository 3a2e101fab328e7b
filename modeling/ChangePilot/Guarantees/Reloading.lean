import ChangePilot.Guarantees.Definitions
import ChangePilot.Persistence.RoundTrip

/-!
# Reloaded definitions

A definition that was accepted comes back from its text as it was, with a reference that
is not available for each secret reference.
-/

namespace ChangePilot

/-- Values with one JSON value have one text, whatever the order of their members. -/
def Runtime.SortsKeys (runtime : Runtime) : Prop :=
  ∀ value other : Value, value.SameJson other →
    runtime.jsonDumps true value = runtime.jsonDumps true other

theorem Sample.canonicalRuntime_sortsKeys : Sample.canonicalRuntime.SortsKeys := by
  rintro value other ⟨json, hjson, hjson'⟩
  simp only [Sample.canonicalRuntime, hjson, hjson']

/-! ## Loaded fields -/

theorem jsonRoundTrip_list_self {items : List Value}
    (h : ∀ item ∈ items, jsonRoundTrip item = some item) :
    jsonRoundTrip (.list items) = some (.list items) := by
  have hmembers : ∀ item ∈ items, ∃ json, item.json? = some json ∧ valueOfJson json = item :=
    fun item hitem => jsonRoundTrip_eq_some_iff.mp (h item hitem)
  obtain ⟨members, hmembers⟩ := exists_forall₂ hmembers
  refine jsonRoundTrip_eq_some_iff.mpr ⟨.arr members, ?_, ?_⟩
  · exact Value.json?_list_eq_some_iff.mpr ⟨members, rfl, hmembers.imp fun _ _ hjson => hjson.1⟩
  · have heq : members.map valueOfJson = items := by
      rw [← List.forall₂_eq_eq_eq, List.forall₂_map_left_iff]
      exact List.Forall₂.flip (hmembers.imp fun _ _ hjson => hjson.2)
    rw [valueOfJson, itemsToValue_eq_map, heq]

/-- Each field is found under its name, and no other. -/
structure LoadedFields (fields : List (String × Value)) (entries : List (Value × Value)) :
    Prop where
  found : ∀ field ∈ fields, ∃ value, jsonRoundTrip field.2 = some value ∧
    Value.lookup field.1 entries = some value
  missing : ∀ name, name ∉ fields.map Prod.fst → Value.lookup name entries = none

theorem loadedFields_of_roundTrip {fields : List (String × Value)} {loaded : Value}
    (h : jsonRoundTrip (.ofFields fields) = some loaded) :
    ∃ entries, loaded = .dict entries ∧ LoadedFields fields entries := by
  obtain ⟨permuted, entries, rfl, hperm, hnodup, hentries⟩ := jsonRoundTrip_dict h
  refine ⟨entries, rfl, ⟨fun field hfield => ?_, fun name hname => ?_⟩⟩
  · have hmem : (Value.str field.1, field.2) ∈ permuted :=
      hperm.mem_iff.mp (List.mem_map_of_mem hfield)
    obtain ⟨entry, hentry, hkey, hvalue⟩ := exists_of_mem_right
      (List.Forall₂.flip hentries) hmem
    refine ⟨entry.2, hvalue, Value.lookup_of_mem hnodup ?_⟩
    rw [show Value.str field.1 = entry.1 from hkey]
    exact hentry
  · refine Option.eq_none_iff_forall_ne_some.mpr fun value hvalue => hname ?_
    obtain ⟨entry, hentry, hkey, -⟩ := exists_of_mem_right hentries (Value.mem_of_lookup hvalue)
    obtain ⟨field, hfield, rfl⟩ := List.mem_map.mp (hperm.mem_iff.mpr hentry)
    exact Value.str.inj hkey ▸ List.mem_map_of_mem hfield

theorem LoadedFields.field {fields : List (String × Value)} {entries : List (Value × Value)}
    (h : LoadedFields fields entries) {name : String} (value : Value)
    (hfield : (name, value) ∈ fields) {loaded : Value}
    (hloaded : jsonRoundTrip value = some loaded) (default : Value) :
    Value.field entries name default = loaded := by
  obtain ⟨found, hfound, hlookup⟩ := h.found _ hfield
  obtain rfl := Option.some.inj (hfound.symm.trans hloaded)
  rw [Value.field, hlookup, Option.getD_some]

/-- A mapping in a field is loaded as one. -/
theorem LoadedFields.mapping {fields inner : List (String × Value)}
    {entries : List (Value × Value)} (h : LoadedFields fields entries) {name : String}
    (hfield : (name, Value.ofFields inner) ∈ fields) (default : Value) :
    ∃ loaded, Value.field entries name default = .dict loaded ∧ LoadedFields inner loaded := by
  obtain ⟨found, hfound, hlookup⟩ := h.found _ hfield
  obtain ⟨loaded, rfl, hloaded⟩ := loadedFields_of_roundTrip hfound
  exact ⟨loaded, by rw [Value.field, hlookup, Option.getD_some], hloaded⟩

/-! ## Loaded steps -/

/-- The paths that are stored with the step. -/
def StepDefinition.secretPaths (step : StepDefinition) : List (List Value) :=
  (serializeDefinitionArguments [] step.arguments).2

theorem mem_secretPaths_iff {step : StepDefinition} (h : step.arguments.FrozenJson) {path : List Value} :
    path ∈ step.secretPaths ↔
      ∃ segments, path = pathValue segments ∧ (step.arguments.secretAt segments).isSome :=
  (h.serializes []).2 path

theorem jsonRoundTrip_pathValue (path : List Segment) :
    jsonRoundTrip (.list (pathValue path)) = some (.list (pathValue path)) := by
  refine jsonRoundTrip_list_self fun item hitem => ?_
  obtain ⟨segment, -, rfl⟩ := List.mem_map.mp hitem
  cases segment <;> rfl

/-- The fields of a stored step. -/
def storedFields (step : StepDefinition) : List (String × Value) :=
  canonicalFields step ++ if step.secretPaths.isEmpty then []
    else [(secretReferencePathsKey, .list (step.secretPaths.map .list))]

theorem stepToMapping_eq {step : StepDefinition} (h : step.arguments.FrozenJson) :
    stepToMapping step = .ofFields (storedFields step) := by
  have hvalue : (serializeDefinitionArguments [] step.arguments).1 = thawValue step.arguments :=
    (h.serializes []).1
  rw [storedFields, canonicalFields, ← hvalue]
  rfl

/-! ## Texts that pass their checks again -/

/-- The name and the version of the tool are texts. -/
def ToolReference.Named (runtime : Runtime) (tool : ToolReference) : Prop :=
  runtime.isBlank tool.name = false ∧ runtime.isBlank tool.version = false

theorem named_of_parseToolReference {runtime : Runtime} {stepId field : String} {value : Value}
    {tool : ToolReference} (h : parseToolReference runtime stepId field value = .ok tool) :
    tool.Named runtime := by
  simp only [parseToolReference, Except.bind_eq_ok_iff, Except.pure_eq_ok_iff] at h
  obtain ⟨_, _, name, hname, version, hversion, rfl⟩ := h
  exact ⟨(requireString_eq_ok_iff.mp hname).2, (requireString_eq_ok_iff.mp hversion).2⟩

/-- What a step that was accepted has. -/
structure StepDefinition.Checked (runtime : Runtime) (step : StepDefinition) : Prop where
  id : runtime.isBlank step.id = false
  tool : step.tool.Named runtime
  dependsOn : ∀ d ∈ step.dependsOn, runtime.isBlank d = false
  dependsOn_nodup : step.dependsOn.Nodup
  dependsOn_sorted : step.dependsOn.Pairwise (· ≤ ·)
  risk : runtime.isBlank step.risk = false
  compensationTool : ∀ tool ∈ step.compensationTool, tool.Named runtime

theorem requireStringSequence_spec {runtime : Runtime} {stepId : Option String} {field : String}
    {value : Value} {texts : List String}
    (h : requireStringSequence runtime stepId field value = .ok texts) :
    (∀ text ∈ texts, runtime.isBlank text = false) ∧ texts.Nodup ∧ texts.Pairwise (· ≤ ·) := by
  have hitems {items : List Value} (h : (do
      let normalized ← items.mapM (requireString runtime stepId field)
      return normalized.dedup.insertionSort (· ≤ ·)) = Except.ok texts) :
      (∀ text ∈ texts, runtime.isBlank text = false) ∧ texts.Nodup ∧ texts.Pairwise (· ≤ ·) := by
    simp only [Except.bind_eq_ok_iff, Except.pure_eq_ok_iff] at h
    obtain ⟨normalized, hnormalized, rfl⟩ := h
    have hperm := List.perm_insertionSort (fun a b : String => a ≤ b) normalized.dedup
    refine ⟨fun text htext => ?_, hperm.nodup_iff.mpr normalized.nodup_dedup,
      List.pairwise_insertionSort _ _⟩
    exact (mapM_requireString_eq_ok_iff.mp hnormalized).2 text
      (List.mem_dedup.mp (hperm.mem_iff.mp htext))
  cases value with
  | none =>
      obtain rfl := Except.ok.inj h
      exact ⟨List.forall_mem_nil _, .nil, .nil⟩
  | list => exact hitems h
  | tuple => exact hitems h
  | _ => cases h

theorem StepDefinition.ReadFrom.checked {runtime : Runtime} {registry : ToolRegistry}
    {mapping : List (Value × Value)} {step : StepDefinition}
    (h : step.ReadFrom runtime registry mapping) : step.Checked runtime := by
  obtain ⟨hnonblank, hnodup, hsorted⟩ := requireStringSequence_spec h.dependsOn
  refine {
    id := (requireString_eq_ok_iff.mp h.id).2
    tool := named_of_parseToolReference h.tool
    dependsOn := hnonblank
    dependsOn_nodup := hnodup
    dependsOn_sorted := hsorted
    risk := (requireString_eq_ok_iff.mp h.risk).2
    compensationTool := fun tool htool => ?_ }
  have hparse := h.compensationTool
  generalize Value.field mapping "compensation_tool" .none = value at hparse
  rw [Option.mem_def.mp htool] at hparse
  cases value with
  | none => cases hparse
  | _ =>
      simp only [parseOptionalToolReference, Except.bind_eq_ok_iff, Except.pure_eq_ok_iff] at hparse
      obtain ⟨_, hread, _, _, heq⟩ := hparse
      obtain rfl := Option.some.inj heq
      exact named_of_parseToolReference hread

/-! ## Loaded steps -/

theorem parseToolReference_loaded {runtime : Runtime} {tool : ToolReference}
    {entries : List (Value × Value)} (hnamed : tool.Named runtime)
    (h : LoadedFields [("name", .str tool.name), ("version", .str tool.version)] entries)
    (stepId field : String) :
    parseToolReference runtime stepId field (.dict entries) = .ok tool := by
  have hname : Value.field entries "name" .none = .str tool.name :=
    h.field (.str tool.name) (by simp) rfl _
  have hversion : Value.field entries "version" .none = .str tool.version :=
    h.field (.str tool.version) (by simp) rfl _
  simp only [parseToolReference, Except.bind_eq_ok_iff, Except.pure_eq_ok_iff]
  refine ⟨entries, rfl, tool.name, ?_, tool.version, ?_, rfl⟩
  · exact requireString_eq_ok_iff.mpr ⟨hname, hnamed.1⟩
  · exact requireString_eq_ok_iff.mpr ⟨hversion, hnamed.2⟩

theorem parseRetryPolicy_loaded {runtime : Runtime} {retry : RetryPolicy}
    {entries : List (Value × Value)}
    (h : LoadedFields [("max_attempts", .int retry.maxAttempts),
      ("initial_backoff_seconds", .float retry.initialBackoffSeconds)] entries) (stepId : String) :
    parseRetryPolicy runtime stepId (.dict entries) = .ok retry := by
  have hattempts : Value.field entries "max_attempts" (.int 3) = .int retry.maxAttempts :=
    h.field (.int retry.maxAttempts) (by simp) rfl _
  have hbackoff : Value.field entries "initial_backoff_seconds" (.float (.finite 1)) =
      .float retry.initialBackoffSeconds :=
    h.field (.float retry.initialBackoffSeconds) (by simp) rfl _
  have hpos : ¬ (retry.maxAttempts : ℤ) ≤ 0 := by
    have := retry.maxAttempts_bounds.1
    omega
  have hnew : RetryPolicy.new retry.maxAttempts retry.initialBackoffSeconds = .ok retry := by
    rw [RetryPolicy.new, dif_pos retry.maxAttempts_bounds, dif_pos retry.backoff_checked]
  have hnumber : requirePositiveInt (some stepId) "retry.max_attempts"
      (.field entries "max_attempts" (.int 3)) = .ok retry.maxAttempts := by
    rw [hattempts, requirePositiveInt, if_neg hpos, Int.toNat_natCast]
  have hfloat : requireNumber runtime (some stepId) "retry.initial_backoff_seconds"
      (.field entries "initial_backoff_seconds" (.float (.finite 1))) =
        .ok retry.initialBackoffSeconds := by
    rw [hbackoff, requireNumber]
  simp only [parseRetryPolicy, requireMapping, Value.entries?]
  refine (Except.bind_of_eq_ok rfl _).trans ?_
  rw [Except.bind_of_eq_ok hnumber, Except.bind_of_eq_ok hfloat, hnew]
  rfl

theorem requireStringSequence_loaded {runtime : Runtime} {texts : List String}
    (hnonblank : ∀ text ∈ texts, runtime.isBlank text = false) (hnodup : texts.Nodup)
    (hsorted : texts.Pairwise (· ≤ ·)) (stepId : Option String) (field : String) :
    requireStringSequence runtime stepId field (.list (texts.map .str)) = .ok texts := by
  rw [requireStringSequence,
    Except.bind_of_eq_ok (mapM_requireString_eq_ok_iff.mpr ⟨rfl, hnonblank⟩), hnodup.dedup,
    hsorted.insertionSort_eq]
  rfl

theorem jsonRoundTrip_texts (texts : List String) :
    jsonRoundTrip (.list (texts.map .str)) = some (.list (texts.map .str)) :=
  jsonRoundTrip_list_self (List.forall_mem_map.mpr fun _ _ => rfl)

/-- The step with its arguments as they are loaded. -/
def StepDefinition.loaded (step : StepDefinition) : StepDefinition :=
  { step with arguments := freezeValue ((jsonRoundTrip (thawValue step.arguments)).getD .none) }

/-- The raw step is what the stored step is loaded as. -/
def LoadedStep (step : StepDefinition) (rawStep : Value) : Prop :=
  ∃ mapping, rawStep = .dict mapping ∧ LoadedFields (storedFields step) mapping

/-- The step was accepted, and its arguments are JSON with secret references. -/
structure StepDefinition.Storable (runtime : Runtime) (step : StepDefinition) : Prop where
  checked : step.Checked runtime
  frozenJson : step.arguments.FrozenJson
  mapping : ∃ entries, step.arguments = .mappingProxy entries

theorem StepDefinition.Storable.roundTrip {runtime : Runtime} {step : StepDefinition}
    (h : step.Storable runtime) :
    ∃ entries, jsonRoundTrip (thawValue step.arguments) = some (.dict entries) := by
  obtain ⟨entries, hentries⟩ := h.mapping
  obtain ⟨json, hjson⟩ := h.frozenJson.exists_json?
  rw [hentries, thawValue] at hjson ⊢
  obtain ⟨members, -, -, rfl⟩ := Value.json?_dict_eq_some_iff.mp hjson
  exact ⟨_, jsonRoundTrip_eq_some_iff.mpr ⟨_, hjson, rfl⟩⟩

theorem parsePersistedToolReference_loaded {runtime : Runtime} {step : StepDefinition}
    {mapping : List (Value × Value)} (hstep : step.Checked runtime)
    (h : LoadedFields (storedFields step) mapping) :
    parsePersistedToolReference runtime step.id (.field mapping "compensation_tool" .none) =
      .ok step.compensationTool := by
  have hmem : ("compensation_tool", (step.compensationTool.map toolToCanonical).getD .none) ∈
      storedFields step := by simp [storedFields, canonicalFields]
  cases hcompensation : step.compensationTool with
  | none =>
      rw [hcompensation] at hmem
      rw [h.field _ hmem rfl]
      rfl
  | some tool =>
      rw [hcompensation] at hmem
      obtain ⟨entries, hentries, hloaded⟩ := h.mapping hmem .none
      rw [hentries, parsePersistedToolReference, Except.bind_of_eq_ok
        (parseToolReference_loaded (hstep.compensationTool tool hcompensation) hloaded _ _)]
      · rfl
      · intro h
        cases h

theorem parsePersistedStep_loaded {runtime : Runtime} {step : StepDefinition} {rawStep : Value}
    (hstep : step.Storable runtime) (hloaded : LoadedStep step rawStep) {seenIds : List String}
    (hnew : step.id ∉ seenIds) :
    parsePersistedStep runtime seenIds rawStep = .ok ⟨step.loaded, hnew⟩ := by
  obtain ⟨mapping, rfl, h⟩ := hloaded
  obtain ⟨arguments, hroundTrip⟩ := hstep.roundTrip
  have hchecked := hstep.checked
  -- each field reads back as it was written
  have hid : Value.field mapping "id" .none = .str step.id :=
    h.field (.str step.id) (by simp [storedFields, canonicalFields]) rfl _
  have hrisk : Value.field mapping "risk" (.str defaultRisk) = .str step.risk :=
    h.field (.str step.risk) (by simp [storedFields, canonicalFields]) rfl _
  have hdepends : Value.field mapping "depends_on" .none = .list (step.dependsOn.map .str) :=
    h.field (.list (step.dependsOn.map .str)) (by simp [storedFields, canonicalFields])
      (jsonRoundTrip_texts _) _
  have harguments : Value.field mapping "arguments" (.dict []) = .dict arguments :=
    h.field (thawValue step.arguments) (by simp [storedFields, canonicalFields]) hroundTrip _
  -- the tool and the policy are mappings of their own
  obtain ⟨tool, htool, hloadedTool⟩ : ∃ loaded,
      Value.field mapping "tool" .none = .dict loaded ∧
        LoadedFields [("name", .str step.tool.name), ("version", .str step.tool.version)] loaded :=
    h.mapping (by simp [storedFields, canonicalFields, toolToCanonical]) .none
  obtain ⟨retry, hretry, hloadedRetry⟩ : ∃ loaded,
      Value.field mapping "retry" .none = .dict loaded ∧
        LoadedFields [("max_attempts", .int step.retry.maxAttempts),
          ("initial_backoff_seconds", .float step.retry.initialBackoffSeconds)] loaded :=
    h.mapping (by simp [storedFields, canonicalFields]) .none
  simp only [parsePersistedStep, Except.bind_eq_ok_iff]
  refine ⟨mapping, rfl, step.id, requireString_eq_ok_iff.mpr ⟨hid, hchecked.id⟩, ?_⟩
  rw [dif_neg hnew, hdepends, htool, hretry, harguments]
  simp only [Except.bind_eq_ok_iff, Except.pure_eq_ok_iff]
  refine ⟨step.tool, parseToolReference_loaded hchecked.tool hloadedTool _ _, arguments, rfl,
    step.dependsOn, requireStringSequence_loaded hchecked.dependsOn hchecked.dependsOn_nodup
      hchecked.dependsOn_sorted _ _,
    step.risk, requireString_eq_ok_iff.mpr ⟨hrisk, hchecked.risk⟩,
    step.retry, parseRetryPolicy_loaded hloadedRetry _,
    step.compensationTool, parsePersistedToolReference_loaded hchecked h, Subtype.ext ?_⟩
  simp only [StepDefinition.loaded, hroundTrip, Option.getD_some]

theorem parseStepsWith_loaded {runtime : Runtime} {steps : List StepDefinition}
    {rawSteps : List Value} (h : List.Forall₂ LoadedStep steps rawSteps) :
    (∀ step ∈ steps, step.Storable runtime) → ∀ parsed result : ParsedSteps,
      result.val = parsed.val ++ steps.map StepDefinition.loaded →
      parseStepsWith (parsePersistedStep runtime) parsed rawSteps = .ok result := by
  induction h with
  | nil =>
      intro _ parsed result hresult
      rw [List.map_nil, List.append_nil] at hresult
      exact congrArg Except.ok (Subtype.ext hresult.symm)
  | @cons step rawStep steps rawSteps hloaded _ ih =>
      intro hstorable parsed result hresult
      obtain ⟨hstep, hsteps⟩ := List.forall_mem_cons.mp hstorable
      have hnodup := result.property
      rw [hresult, List.map_cons, List.map_append, List.map_cons, List.nodup_append] at hnodup
      have hnew : step.id ∉ parsed.val.map StepDefinition.id := fun hmem =>
        hnodup.2.2 _ hmem _ List.mem_cons_self rfl
      rw [parseStepsWith, Except.bind_of_eq_ok (parsePersistedStep_loaded hstep hloaded hnew)]
      exact ih hsteps _ result (by simp [hresult])

/-! ## Restored steps -/

theorem parseSecretReferencePaths_loaded {runtime : Runtime} {step : StepDefinition}
    {mapping : List (Value × Value)} (hstep : step.Storable runtime)
    (h : LoadedFields (storedFields step) mapping) :
    parseSecretReferencePaths mapping = .ok step.secretPaths := by
  have hpaths : Value.field mapping secretReferencePathsKey (.list []) =
      .list (step.secretPaths.map .list) := by
    -- the paths are written only if there are any
    cases hempty : step.secretPaths.isEmpty with
    | true =>
        have hmissing : secretReferencePathsKey ∉ (storedFields step).map Prod.fst := by
          rw [storedFields, if_pos hempty]
          show secretReferencePathsKey ∉ stepFields
          decide
        rw [Value.field, h.missing _ hmissing, List.isEmpty_iff.mp hempty]
        rfl
    | false =>
        have hfound : (secretReferencePathsKey, Value.list (step.secretPaths.map .list)) ∈
            storedFields step := by
          rw [storedFields, if_neg (Bool.eq_false_iff.mp hempty)]
          exact List.mem_append_right _ List.mem_cons_self
        refine h.field _ hfound (jsonRoundTrip_list_self (List.forall_mem_map.mpr ?_)) _
        intro path hpath
        obtain ⟨segments, rfl, -⟩ := (mem_secretPaths_iff hstep.frozenJson).mp hpath
        exact jsonRoundTrip_pathValue segments
  -- a path has a segment at least, since the arguments are a mapping
  have hparse : ∀ path ∈ step.secretPaths, parseSecretReferencePath (.list path) = .ok path := by
    intro path hpath
    obtain ⟨segments, rfl, hsecret⟩ := (mem_secretPaths_iff hstep.frozenJson).mp hpath
    obtain ⟨entries, hentries⟩ := hstep.mapping
    cases segments with
    | nil =>
        rw [hentries] at hsecret
        cases hsecret
    | cons segment rest =>
        have hsegments : (pathValue (segment :: rest)).all isPathSegment = true := by
          refine List.all_eq_true.mpr (List.forall_mem_map.mpr fun segment _ => ?_)
          cases segment <;> rfl
        rw [parseSecretReferencePath, hsegments]
        rfl
  rw [parseSecretReferencePaths, hpaths]
  show (step.secretPaths.map Value.list).mapM parseSecretReferencePath = _
  rw [List.mapM_map]
  exact (Except.mapM_eq_ok hparse).trans (congrArg Except.ok (List.map_id _))

/-- The paths of the steps, the last step first. -/
def storedPaths (steps : List StepDefinition) : List (Value × List (List Value)) :=
  steps.reverse.map fun step => (.str step.id, step.secretPaths)

theorem pathsByStep_loaded {runtime : Runtime} {steps : List StepDefinition}
    {rawSteps : List Value} (h : List.Forall₂ LoadedStep steps rawSteps) :
    (∀ step ∈ steps, step.Storable runtime) →
      pathsByStep rawSteps = .ok (storedPaths steps) := by
  induction h with
  | nil => exact fun _ => rfl
  | @cons step rawStep steps rawSteps hloaded _ ih =>
      intro hstorable
      obtain ⟨hstep, hsteps⟩ := List.forall_mem_cons.mp hstorable
      obtain ⟨mapping, rfl, hmapping⟩ := hloaded
      have hid : Value.field mapping "id" .none = .str step.id :=
        hmapping.field (.str step.id) (by simp [storedFields, canonicalFields]) rfl _
      rw [pathsByStep, Except.bind_of_eq_ok (parseSecretReferencePaths_loaded hstep hmapping),
        Except.bind_of_eq_ok (ih hsteps), hid]
      simp only [storedPaths, List.reverse_cons, List.map_append, List.map_cons, List.map_nil]
      rfl

/-- A step finds its own paths. -/
theorem pathsOfStep_storedPaths {steps : List StepDefinition}
    (hnodup : (steps.map StepDefinition.id).Nodup) {step : StepDefinition} (hstep : step ∈ steps) :
    pathsOfStep step.id (storedPaths steps) = step.secretPaths := by
  have hown : (Value.str step.id, step.secretPaths) ∈ storedPaths steps :=
    List.mem_map_of_mem (f := fun step : StepDefinition => (Value.str step.id, step.secretPaths))
      (List.mem_reverse.mpr hstep)
  rw [pathsOfStep]
  cases hfind : (storedPaths steps).find? fun entry => sameSegment entry.1 (.str step.id) with
  | none =>
      have hdifferent := List.find?_eq_none.mp hfind _ hown
      simp [sameSegment] at hdifferent
  | some entry =>
      obtain ⟨other, hother, rfl⟩ := List.mem_map.mp (List.mem_of_find?_eq_some hfind)
      have hsame : other.id = step.id := by
        have hid := List.find?_some hfind
        simpa [sameSegment] using hid
      have heq : other = step :=
        List.inj_on_of_nodup_map hnodup (List.mem_reverse.mp hother) hstep hsame
      rw [heq]
      rfl

/-- A definition with the secrets of its steps lost. -/
def StepDefinition.withSecretsLost (step : StepDefinition) : StepDefinition :=
  { step with arguments := loseSecrets step.arguments }

/-- The arguments of a loaded step are restored. -/
theorem restoreUnavailableSecretReferences_loaded {runtime : Runtime} {step : StepDefinition}
    (hstep : step.Storable runtime) : ∃ restored,
      restoreUnavailableSecretReferences step.loaded.arguments step.secretPaths = .ok restored ∧
        (loseSecrets step.arguments).Equals restored := by
  have hmarked : step.arguments.MarkedIn step.secretPaths [] := by
    intro rest
    rw [mem_secretPaths_iff hstep.frozenJson, List.nil_append]
    constructor
    · rintro ⟨segments, hsegments, hsecret⟩
      rwa [pathValue_injective hsegments]
    · exact fun hsecret => ⟨rest, rfl, hsecret⟩
  obtain ⟨arguments, hroundTrip⟩ := hstep.roundTrip
  obtain ⟨restored, hrestored, hequals⟩ := hstep.frozenJson.restoredAt hmarked _ hroundTrip
  refine ⟨restored, ?_, hequals⟩
  obtain ⟨entries, hentries⟩ := hstep.mapping
  rw [StepDefinition.loaded, hroundTrip, Option.getD_some, restoreUnavailableSecretReferences]
  refine (Except.bind_of_eq_ok hrestored _).trans ?_
  rw [hentries, loseSecrets] at hequals
  cases hequals <;> rfl

theorem restoreSteps_loaded {runtime : Runtime} {paths : List (Value × List (List Value))} :
    ∀ steps : List StepDefinition, (∀ step ∈ steps, step.Storable runtime ∧
      pathsOfStep step.id paths = step.secretPaths) →
    ∃ restored, restoreSteps paths (steps.map StepDefinition.loaded) = .ok restored ∧
      List.Forall₂ (fun step restored => step.withSecretsLost.Equals restored)
        steps restored.val := by
  intro steps
  induction steps with
  | nil => exact fun _ => ⟨_, rfl, .nil⟩
  | cons step steps ih =>
      intro h
      obtain ⟨⟨hstep, hpaths⟩, hsteps⟩ := List.forall_mem_cons.mp h
      obtain ⟨arguments, harguments, hequals⟩ := restoreUnavailableSecretReferences_loaded hstep
      obtain ⟨restored, hrestored, hequal⟩ := ih hsteps
      have hown : pathsOfStep step.loaded.id paths = step.secretPaths := hpaths
      refine ⟨⟨{ step.loaded with arguments := arguments } :: restored.val,
        congrArg (step.links :: ·) restored.property⟩, ?_, ?_⟩
      · rw [← hown] at harguments
        refine (Except.bind_of_eq_ok harguments _).trans ?_
        exact Except.bind_of_eq_ok hrestored _
      · exact .cons ⟨rfl, rfl, hequals, rfl, rfl, rfl, rfl⟩ hequal

/-! ## Loaded definitions -/

section

variable {runtime : Runtime} {definition : WorkflowDefinition}

/-- A definition with the secrets of its steps lost. -/
def WorkflowDefinition.withSecretsLost (definition : WorkflowDefinition) : WorkflowDefinition :=
  definition.replaceSteps ⟨definition.steps.map StepDefinition.withSecretsLost,
    by rw [List.map_map]; rfl⟩

/-- A definition with the arguments of its steps as they are loaded. -/
def WorkflowDefinition.loaded (definition : WorkflowDefinition) : WorkflowDefinition :=
  definition.replaceSteps ⟨definition.steps.map StepDefinition.loaded, by rw [List.map_map]; rfl⟩

/-- The definition was accepted, and the arguments of its steps are JSON. -/
structure WorkflowDefinition.Storable (runtime : Runtime) (definition : WorkflowDefinition) :
    Prop where
  steps : ∀ step ∈ definition.steps, step.Storable runtime
  definitionId : runtime.isBlank definition.definitionId = false
  version : 0 < definition.version
  bounded : definition.steps.length ≤ maxSteps
  edges : (definition.steps.map fun step => step.dependsOn.length).sum ≤ maxEdges
  digest : calculateDigest runtime definition.definitionId definition.version definition.steps =
    .ok definition.digest

theorem storable_of_fromMapping {registry : ToolRegistry} {payload : Value}
    (h : WorkflowDefinition.fromMapping runtime registry payload = .ok definition)
    (hjson : definition.HasJsonArguments) : definition.Storable runtime := by
  obtain ⟨mapping, rawSteps, steps, -, hread⟩ := fromMapping_eq_ok_iff.mp h
  have hperm : definition.steps.Perm steps := hread.steps ▸ perm_sortSteps steps
  refine {
    steps := fun step hstep => ?_
    definitionId := (requireString_eq_ok_iff.mp hread.definitionId).2
    version := ?_
    bounded := ?_
    edges := ?_
    digest := hread.digest }
  · obtain ⟨_, -, _, -, hfrom⟩ := exists_of_mem_right hread.read (hperm.mem_iff.mp hstep)
    obtain ⟨_, arguments, -, -, hfrozen⟩ := hfrom.arguments
    exact ⟨hfrom.checked, hjson step hstep, _, hfrozen⟩
  · have hversion := hread.version
    unfold requirePositiveInt at hversion
    split at hversion
    · split at hversion
      · cases hversion
      · have hnumber := Except.ok.inj hversion
        omega
    · cases hversion
  · rw [hperm.length_eq, ← hread.read.length_eq]
    exact hread.bounded
  · rw [(hperm.map _).sum_eq]
    exact hread.edges

theorem exists_json?_stepToMapping {step : StepDefinition} (h : step.arguments.FrozenJson) :
    ∃ json, (stepToMapping step).json? = some json := by
  rw [stepToMapping_eq h]
  refine Value.exists_json?_ofFields ?_ ?_
  · rw [storedFields]
    split
    · exact (show stepFields.Nodup by decide)
    · exact (show (stepFields ++ [secretReferencePathsKey]).Nodup by decide)
  · intro field hfield
    rcases List.mem_append.mp hfield with hcanonical | hpaths
    · exact exists_json?_canonicalFields h field hcanonical
    · split at hpaths
      · cases hpaths
      · obtain rfl := List.mem_singleton.mp hpaths
        refine Value.exists_json?_list (List.forall_mem_map.mpr fun path hpath => ?_)
        obtain ⟨segments, rfl, -⟩ := (mem_secretPaths_iff h).mp hpath
        obtain ⟨json, hjson, -⟩ := jsonRoundTrip_eq_some_iff.mp (jsonRoundTrip_pathValue segments)
        exact ⟨json, hjson⟩

/-- What is stored of the definition has a text, and this is loaded step by step. -/
theorem WorkflowDefinition.Storable.exists_loaded (h : definition.Storable runtime) :
    ∃ stored rawSteps, jsonRoundTrip (definitionToMapping definition) = some (.dict stored) ∧
      Value.field stored "definition_id" .none = .str definition.definitionId ∧
      Value.field stored "version" .none = .int definition.version ∧
      Value.field stored "steps" .none = .list rawSteps ∧
      List.Forall₂ LoadedStep definition.steps rawSteps := by
  have hsteps : ∃ json, (Value.list (definition.steps.map stepToMapping)).json? = some json :=
    Value.exists_json?_list (List.forall_mem_map.mpr fun step hstep =>
      exists_json?_stepToMapping (h.steps step hstep).frozenJson)
  obtain ⟨json, hjson⟩ : ∃ json, (definitionToMapping definition).json? = some json := by
    refine Value.exists_json?_ofFields
      (show ["definition_id", "version", "steps"].Nodup by decide) ?_
    simp only [List.forall_mem_cons]
    exact ⟨⟨_, rfl⟩, ⟨_, rfl⟩, hsteps, List.forall_mem_nil _⟩
  have hroundTrip := jsonRoundTrip_eq_some_iff.mpr ⟨json, hjson, rfl⟩
  obtain ⟨stored, hstored, hfields⟩ := loadedFields_of_roundTrip hroundTrip
  obtain ⟨stepsJson, hstepsJson⟩ := hsteps
  have hlisted := jsonRoundTrip_eq_some_iff.mpr ⟨stepsJson, hstepsJson, rfl⟩
  obtain ⟨rawSteps, hrawSteps, hread⟩ := jsonRoundTrip_list hlisted
  refine ⟨stored, rawSteps, hstored ▸ hroundTrip, ?_, ?_, ?_, ?_⟩
  · exact hfields.field (.str definition.definitionId) (by simp) rfl _
  · exact hfields.field (.int definition.version) (by simp) rfl _
  · rw [← hrawSteps]
    exact hfields.field (.list (definition.steps.map stepToMapping)) (by simp) hlisted _
  · rw [List.forall₂_map_left_iff] at hread
    refine forall₂_imp_of_mem hread fun step hstep rawStep _ hraw => ?_
    rw [stepToMapping_eq (h.steps step hstep).frozenJson] at hraw
    exact loadedFields_of_roundTrip hraw

/-- The digest hides the secrets, and the order of the members is not in the text. -/
theorem calculateDigest_loaded (hsorts : runtime.SortsKeys) (h : definition.Storable runtime) :
    calculateDigest runtime definition.loaded.definitionId definition.loaded.version
      definition.loaded.steps = .ok definition.loaded.digest := by
  have hstep : ∀ step ∈ definition.steps,
      (stepToCanonical step).SameJson (stepToCanonical step.loaded) := by
    intro step hstep
    have hstorable := h.steps step hstep
    obtain ⟨arguments, hroundTrip⟩ := hstorable.roundTrip
    have harguments := hstorable.frozenJson.sameJson_loaded hroundTrip
    have hloaded : step.loaded.arguments = freezeValue (.dict arguments) := by
      rw [StepDefinition.loaded, hroundTrip, Option.getD_some]
    rw [← hloaded] at harguments
    refine Value.SameJson.of_fields ?_ (exists_json?_stepToCanonical hstorable.frozenJson)
    exact .cons ⟨rfl, .inl rfl⟩ (.cons ⟨rfl, .inl rfl⟩ (.cons ⟨rfl, .inr harguments⟩
      (List.forall₂_same.mpr fun _ _ => ⟨rfl, .inl rfl⟩)))
  have hsteps : (Value.list (definition.steps.map stepToCanonical)).SameJson
      (.list (definition.loaded.steps.map stepToCanonical)) := by
    refine Value.SameJson.of_items ?_
    show List.Forall₂ _ _ ((definition.steps.map StepDefinition.loaded).map stepToCanonical)
    rw [List.map_map, List.forall₂_map_left_iff, List.forall₂_map_right_iff, List.forall₂_same]
    exact hstep
  have hpayload : definition.payload.SameJson definition.loaded.payload := by
    have hjson : definition.HasJsonArguments := fun step hstep => (h.steps step hstep).frozenJson
    refine Value.SameJson.of_fields ?_ hjson.exists_json?
    exact .cons ⟨rfl, .inl rfl⟩ (.cons ⟨rfl, .inl rfl⟩ (.cons ⟨rfl, .inr hsteps⟩ .nil))
  have hdigest := h.digest
  simp only [calculateDigest, Except.bind_eq_ok_iff] at hdigest ⊢
  obtain ⟨text, htext, hsha⟩ := hdigest
  exact ⟨text, (hsorts _ _ hpayload).symm.trans htext, hsha⟩

/-- The text is read as the definition with its arguments as they are loaded. -/
theorem fromMappingWith_loaded (hsorts : runtime.SortsKeys) (h : definition.Storable runtime)
    {stored : List (Value × Value)} {rawSteps : List Value}
    (hid : Value.field stored "definition_id" .none = .str definition.definitionId)
    (hversion : Value.field stored "version" .none = .int definition.version)
    (hlisted : Value.field stored "steps" .none = .list rawSteps)
    (hread : List.Forall₂ LoadedStep definition.steps rawSteps) :
    WorkflowDefinition.fromMappingWith runtime (parsePersistedStep runtime) (.dict stored) =
      .ok definition.loaded := by
  have hnodup : (definition.loaded.steps.map StepDefinition.id).Nodup :=
    List.pairwise_map.mpr (definition.loaded.steps_sorted.imp fun hlt => hlt.ne)
  have hparsed := parseStepsWith_loaded hread h.steps ⟨[], List.nodup_nil⟩
    ⟨definition.loaded.steps, hnodup⟩ rfl
  have hle : definition.loaded.steps.Pairwise fun a b => a.id ≤ b.id :=
    definition.loaded.steps_sorted.imp fun hlt => hlt.le
  refine WorkflowDefinition.fromMappingWith_eq_ok rfl ?_ ?_ hlisted ?_ hparsed ?_
    hle.insertionSort_eq.symm (calculateDigest_loaded hsorts h)
  · exact requireString_eq_ok_iff.mpr ⟨hid, h.definitionId⟩
  · have hpos := h.version
    rw [hversion, requirePositiveInt, if_neg (by omega), Int.toNat_natCast]
    rfl
  · rw [← hread.length_eq]
    exact h.bounded
  · show ((definition.steps.map StepDefinition.loaded).map _).sum ≤ maxEdges
    rw [List.map_map]
    exact h.edges

/-- The definition comes back from its text, with its secrets lost. -/
theorem WorkflowDefinition.Storable.exists_reloaded (hsorts : runtime.SortsKeys)
    (hstorable : definition.Storable runtime) :
    ∃ stored reloaded, jsonRoundTrip (definitionToMapping definition) = some (.dict stored) ∧
      definitionFromMapping runtime stored = .ok reloaded ∧
      definition.withSecretsLost.Equals reloaded ∧ reloaded.digest = definition.digest := by
  obtain ⟨stored, rawSteps, hroundTrip, hid, hversion, hlisted, hread⟩ := hstorable.exists_loaded
  have hparsed := fromMappingWith_loaded hsorts hstorable hid hversion hlisted hread
  have hpaths := pathsByStep_loaded hread hstorable.steps
  have hnodup : (definition.steps.map StepDefinition.id).Nodup :=
    List.pairwise_map.mpr (definition.steps_sorted.imp fun hlt => hlt.ne)
  obtain ⟨restored, hrestored, hequal⟩ := restoreSteps_loaded definition.steps fun step hstep =>
    ⟨hstorable.steps step hstep, pathsOfStep_storedPaths hnodup hstep⟩
  refine ⟨stored, definition.loaded.replaceSteps restored, hroundTrip, ?_, ?_, rfl⟩
  · rw [definitionFromMapping, Except.bind_of_eq_ok hparsed, hlisted]
    refine (Except.bind_of_eq_ok hpaths _).trans ?_
    exact Except.bind_of_eq_ok hrestored _
  · exact ⟨rfl, rfl, List.forall₂_map_left_iff.mpr hequal, rfl⟩

end

/-- A key under a key that looks like an index, next to a text that looks like its
placeholder. -/
def Sample.signNested : Value :=
  signPayload [signStep "s"
    (.ofFields [("0", .list [.secretRef "vault" "old", .str secretReferencePlaceholder])]) []]

theorem Sample.exists_signsNested : ∃ definition,
    WorkflowDefinition.fromMapping signing.runtime signing.registry signNested = .ok definition ∧
      definition.HasJsonArguments := by
  refine ⟨_, rfl, fun step hstep => ?_⟩
  obtain rfl := List.mem_singleton.mp hstep
  have hitems : (Value.tuple [.secretRef "vault" "old", .str secretReferencePlaceholder]).FrozenJson :=
    .tuple (List.forall_mem_cons.mpr ⟨.secretRef _ _, List.forall_mem_singleton.mpr (.str _)⟩)
  have hinner : (Value.mappingProxy [(.str "0", .tuple [.secretRef "vault" "old",
      .str secretReferencePlaceholder])]).FrozenJson :=
    .mappingProxy (List.nodup_singleton _) (List.forall_mem_singleton.mpr ⟨"0", rfl⟩)
      (List.forall_mem_singleton.mpr hitems)
  exact .mappingProxy (List.nodup_singleton _) (List.forall_mem_singleton.mpr ⟨"key", rfl⟩)
    (List.forall_mem_singleton.mpr hinner)

/-- A definition that was accepted, of JSON arguments with secret references, is stored as
a text, from which it comes back with its digest, and with a reference that is not
available for each secret reference. -/
theorem reloaded_definition_equals (runtime : Runtime) (hsorts : runtime.SortsKeys)
    (registry : ToolRegistry) (payload : Value) (definition : WorkflowDefinition)
    (h : WorkflowDefinition.fromMapping runtime registry payload = .ok definition)
    (hjson : definition.HasJsonArguments) :
    ∃ stored reloaded, jsonRoundTrip (definitionToMapping definition) = some (.dict stored) ∧
      definitionFromMapping runtime stored = .ok reloaded ∧
      definition.withSecretsLost.Equals reloaded ∧ reloaded.digest = definition.digest := by
  exact (storable_of_fromMapping h hjson).exists_reloaded hsorts

/-- A definition with a secret inside a sequence. -/
theorem reloaded_definition_equals_nested : ∃ definition stored reloaded,
    WorkflowDefinition.fromMapping Sample.signing.runtime Sample.signing.registry
      Sample.signNested = .ok definition ∧
    jsonRoundTrip (definitionToMapping definition) = some (.dict stored) ∧
    definitionFromMapping Sample.signing.runtime stored = .ok reloaded ∧
    definition.withSecretsLost.Equals reloaded ∧ reloaded.digest = definition.digest := by
  obtain ⟨definition, hdefinition, hjson⟩ := Sample.exists_signsNested
  obtain ⟨stored, reloaded, h⟩ := reloaded_definition_equals Sample.signing.runtime
    Sample.canonicalRuntime_sortsKeys Sample.signing.registry Sample.signNested definition hdefinition
    hjson
  exact ⟨definition, stored, reloaded, hdefinition, h⟩

end ChangePilot
