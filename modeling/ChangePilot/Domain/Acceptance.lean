import ChangePilot.Domain.Definitions
import ChangePilot.Library.Transaction
import Mathlib.Data.List.Dedup
import Mathlib.Data.List.Perm.Basic
import Mathlib.Data.Set.List

/-!
# What `from_mapping` accepts

`ReadFrom` says what a definition has to do with the payload of which it was accepted.
It asks for each step by itself, so that neither the order of the steps nor that of the
dependencies of a step matters (`fromMapping_rearranged`).
-/

namespace ChangePilot

variable {runtime : Runtime} {registry : ToolRegistry}

/-! ## Steps -/

/-- The step is read off the entries of a raw step. -/
structure StepDefinition.ReadFrom (runtime : Runtime) (registry : ToolRegistry)
    (mapping : List (Value × Value)) (step : StepDefinition) : Prop where
  id : requireString runtime none "id" (.field mapping "id" .none) = .ok step.id
  tool : parseToolReference runtime step.id "tool" (.field mapping "tool" .none) = .ok step.tool
  registered : ensureRegistered registry step.id "tool" step.tool = .ok ()
  arguments : ∃ rawArguments arguments,
    requireMapping (some step.id) "arguments" (.field mapping "arguments" (.dict [])) =
      .ok rawArguments ∧
    coerceStepArguments runtime registry step.id step.tool rawArguments = .ok arguments ∧
    step.arguments = freezeValue (.dict arguments)
  dependsOn : requireStringSequence runtime (some step.id) "depends_on"
    (.field mapping "depends_on" .none) = .ok step.dependsOn
  risk : requireString runtime (some step.id) "risk"
    (.field mapping "risk" (.str defaultRisk)) = .ok step.risk
  retry : parseRetryPolicy runtime step.id (.field mapping "retry" .none) = .ok step.retry
  compensationTool : parseOptionalToolReference runtime registry step.id
    (.field mapping "compensation_tool" .none) = .ok step.compensationTool

/-- The ids seen before are asked only whether the step is new. -/
theorem parseStep_eq_ok_iff {seenIds : List String} {rawStep : Value}
    {step : {step : StepDefinition // step.id ∉ seenIds}} :
    parseStep runtime registry seenIds rawStep = .ok step ↔
      ∃ mapping, requireMapping none "steps" rawStep = .ok mapping ∧
        step.val.ReadFrom runtime registry mapping := by
  obtain ⟨step, hnew⟩ := step
  simp only [parseStep, Except.bind_eq_ok_iff]
  constructor
  · rintro ⟨mapping, hmapping, stepId, hid, h⟩
    split at h
    · cases h
    · simp only [Except.bind_eq_ok_iff, Except.pure_eq_ok_iff] at h
      obtain ⟨tool, htool, _, hregistered, rawArguments, hraw, arguments, harguments, dependsOn,
        hdependsOn, risk, hrisk, retry, hretry, compensation, hcompensation, heq⟩ := h
      obtain rfl := Subtype.mk.inj heq
      exact ⟨mapping, hmapping, hid, htool, hregistered, ⟨rawArguments, arguments, hraw, harguments,
        rfl⟩, hdependsOn, hrisk, hretry, hcompensation⟩
  · rintro ⟨mapping, hmapping, h⟩
    obtain ⟨rawArguments, arguments, hraw, harguments, hfrozen⟩ := h.arguments
    refine ⟨mapping, hmapping, step.id, h.id, ?_⟩
    rw [dif_neg hnew]
    simp only [Except.bind_eq_ok_iff, Except.pure_eq_ok_iff]
    refine ⟨step.tool, h.tool, (), h.registered, rawArguments, hraw, arguments, harguments,
      step.dependsOn, h.dependsOn, step.risk, h.risk, step.retry, h.retry, step.compensationTool,
      h.compensationTool, Subtype.ext ?_⟩
    rw [← hfrozen]

/-- The steps of a payload, in its order. -/
def ReadsSteps (runtime : Runtime) (registry : ToolRegistry) (rawSteps : List Value)
    (steps : List StepDefinition) : Prop :=
  List.Forall₂ (fun rawStep step => ∃ mapping,
    requireMapping none "steps" rawStep = .ok mapping ∧ step.ReadFrom runtime registry mapping)
    rawSteps steps

theorem parseSteps_eq_ok_iff {rawSteps : List Value} : ∀ {parsed result : ParsedSteps},
    parseSteps runtime registry parsed rawSteps = .ok result ↔
      ∃ steps, ReadsSteps runtime registry rawSteps steps ∧ result.val = parsed.val ++ steps := by
  induction rawSteps with
  | nil =>
      intro parsed result
      simp only [parseSteps, Except.ok.injEq, ReadsSteps, List.forall₂_nil_left_iff,
        exists_eq_left, List.append_nil]
      exact ⟨fun h => congrArg Subtype.val h.symm, fun h => Subtype.ext h.symm⟩
  | cons rawStep rest ih =>
      intro parsed result
      simp only [parseSteps, Except.bind_eq_ok_iff]
      constructor
      · rintro ⟨⟨step, hnew⟩, hstep, h⟩
        obtain ⟨steps, hsteps, hresult⟩ := ih.mp h
        exact ⟨step :: steps, .cons (parseStep_eq_ok_iff.mp hstep) hsteps, by simp [hresult]⟩
      · rintro ⟨steps, hsteps, hresult⟩
        obtain ⟨step, steps, hstep, hrest, rfl⟩ := List.forall₂_cons_left_iff.mp hsteps
        have hnodup := result.property
        rw [hresult, List.map_append, List.map_cons, List.nodup_append] at hnodup
        have hnew : step.id ∉ parsed.val.map StepDefinition.id := fun hmem =>
          hnodup.2.2 _ hmem _ List.mem_cons_self rfl
        exact ⟨⟨step, hnew⟩, parseStep_eq_ok_iff.mpr hstep,
          ih.mpr ⟨steps, hrest, by simp [hresult]⟩⟩

/-! ## Definitions -/

/-- What a definition has to do with the payload of which it was accepted. -/
structure WorkflowDefinition.ReadFrom (runtime : Runtime) (registry : ToolRegistry)
    (mapping : List (Value × Value)) (rawSteps : List Value) (steps : List StepDefinition)
    (definition : WorkflowDefinition) : Prop where
  definitionId : requireString runtime none "definition_id" (.field mapping "definition_id" .none) =
    .ok definition.definitionId
  version : requirePositiveInt none "version" (.field mapping "version" .none) =
    .ok definition.version
  listed : Value.field mapping "steps" .none = .list rawSteps
  bounded : rawSteps.length ≤ maxSteps
  read : ReadsSteps runtime registry rawSteps steps
  edges : (steps.map fun step => step.dependsOn.length).sum ≤ maxEdges
  steps : definition.steps = sortSteps steps
  digest : calculateDigest runtime definition.definitionId definition.version definition.steps =
    .ok definition.digest

/-- A definition is its data. -/
theorem WorkflowDefinition.ext_data {a b : WorkflowDefinition}
    (hid : a.definitionId = b.definitionId) (hversion : a.version = b.version)
    (hsteps : a.steps = b.steps) (hdigest : a.digest = b.digest) : a = b := by
  cases a
  cases b
  obtain rfl := hid
  obtain rfl := hversion
  obtain rfl := hsteps
  obtain rfl := hdigest
  rfl

theorem perm_sortSteps (steps : List StepDefinition) : (sortSteps steps).Perm steps :=
  List.perm_insertionSort _ _

theorem unknownDependency_eq_none_iff {steps : List StepDefinition} :
    unknownDependency steps = none ↔
      ∀ step ∈ steps, ∀ d ∈ step.dependsOn, ∃ other ∈ steps, other.id = d := by
  refine ⟨unknownDependency_eq_none, fun h => ?_⟩
  refine List.findSome?_eq_none_iff.mpr fun step hstep => ?_
  rw [Option.map_eq_none_iff, List.find?_eq_none]
  intro d hd
  obtain ⟨other, hother, hid⟩ := h step hstep d hd
  simpa using ⟨other, hother, hid⟩

theorem findCycle_dependencies_eq_none {steps : List StepDefinition}
    (hnodup : (steps.map StepDefinition.id).Nodup)
    (hknown : ∀ step ∈ steps, ∀ d ∈ step.dependsOn, ∃ other ∈ steps, other.id = d)
    (hacyclic : ∃ rank : String → ℕ, ∀ step ∈ steps, ∀ d ∈ step.dependsOn,
      rank d < rank step.id) : Kahn.findCycle (dependencies steps) = none := by
  obtain ⟨rank, hrank⟩ := hacyclic
  have hnodes : Kahn.nodes (dependencies steps) = steps.map StepDefinition.id := by
    simp [Kahn.nodes, dependencies]
  have hkeys : (Kahn.nodes (dependencies steps)).Nodup := hnodes ▸ hnodup
  refine Kahn.findCycle_eq_none_of_rank hkeys rank fun x hx d hd => ?_
  rw [hnodes] at hx ⊢
  obtain ⟨step, hstep, rfl⟩ := List.mem_map.mp hx
  rw [Kahn.depsOf_of_mem hkeys (List.mem_map.mpr ⟨step, hstep, rfl⟩)] at hd
  obtain ⟨other, hother, rfl⟩ := hknown step hstep d hd
  exact ⟨List.mem_map_of_mem hother, hrank step hstep _ hd⟩

/-! ## Any way to parse a step -/

section

variable (runtime : Runtime)

namespace ParsedSteps

variable (parsed : ParsedSteps)

theorem sorted : (sortSteps parsed.val).Pairwise fun a b => a.id < b.id :=
  pairwise_sortSteps parsed.property

theorem known (h : unknownDependency parsed.val = none) : ∀ step ∈ sortSteps parsed.val,
    ∀ d ∈ step.dependsOn, ∃ other ∈ sortSteps parsed.val, other.id = d := by
  intro step hstep d hd
  obtain ⟨other, hother, hid⟩ := unknownDependency_eq_none h step (mem_sortSteps.mp hstep) d hd
  exact ⟨other, mem_sortSteps.mpr hother, hid⟩

theorem acyclic (h : Kahn.findCycle (dependencies parsed.val) = none) : ∃ rank : String → ℕ,
    ∀ step ∈ sortSteps parsed.val, ∀ d ∈ step.dependsOn, rank d < rank step.id := by
  obtain ⟨rank, hrank⟩ := exists_rank_of_findCycle parsed.property h
  exact ⟨rank, fun step hstep => hrank step (mem_sortSteps.mp hstep)⟩

end ParsedSteps

/-- A way to parse a step after the steps with the given ids. -/
abbrev StepParser := (seenIds : List String) → Value →
  Except Error {step : StepDefinition // step.id ∉ seenIds}

/-- The loop over the raw steps. -/
def parseStepsWith (parse : StepParser) : ParsedSteps → List Value → Except Error ParsedSteps
  | parsed, [] => .ok parsed
  | parsed, rawStep :: rest => do
      let ⟨step, hnew⟩ ← parse (parsed.val.map StepDefinition.id) rawStep
      parseStepsWith parse ⟨parsed.val ++ [step], nodup_append_parsed hnew⟩ rest

/-- `from_mapping`, for any way to parse a step. -/
def WorkflowDefinition.fromMappingWith (parse : StepParser) (payload : Value) :
    Except Error WorkflowDefinition := do
  let mapping ← requireMapping none "workflow" payload
  let definitionId ← requireString runtime none "definition_id"
    (.field mapping "definition_id" .none)
  let version ← requirePositiveInt none "version" (.field mapping "version" .none)
  let .list rawSteps := Value.field mapping "steps" .none
    | throw (.definitionValidationError "steps must be a list" none (some "steps"))
  if maxSteps < rawSteps.length then
    throw (.definitionValidationError
      s!"workflow definition supports at most {maxSteps} steps" none (some "steps"))
  let parsed ← parseStepsWith parse ⟨[], List.nodup_nil⟩ rawSteps
  if maxEdges < (parsed.val.map fun step => step.dependsOn.length).sum then
    throw (.definitionValidationError
      s!"workflow definition supports at most {maxEdges} dependency edges" none (some "steps"))
  match hknown : unknownDependency parsed.val with
  | some (stepId, dependency) =>
      throw (.definitionValidationError
        s!"unknown dependency target {runtime.repr dependency}" (some stepId) (some "depends_on"))
  | none =>
      match hcycle : Kahn.findCycle (dependencies parsed.val) with
      | some cycle =>
          let members := ", ".intercalate cycle
          throw (.definitionValidationError s!"cycle detected among steps: {members}" cycle.head?
            (some "depends_on"))
      | none => do
          let digest ← calculateDigest runtime definitionId version (sortSteps parsed.val)
          return {
            definitionId := definitionId
            version := version
            steps := sortSteps parsed.val
            digest := digest
            steps_sorted := parsed.sorted
            dependencies_known := parsed.known hknown
            acyclic := parsed.acyclic hcycle }

end

theorem parseSteps_eq_with (runtime : Runtime) (registry : ToolRegistry) :
    ∀ (rawSteps : List Value) (parsed : ParsedSteps), parseSteps runtime registry parsed rawSteps =
      parseStepsWith (parseStep runtime registry) parsed rawSteps := by
  intro rawSteps
  induction rawSteps with
  | nil => exact fun _ => rfl
  | cons rawStep rest ih =>
      intro parsed
      rw [parseSteps, parseStepsWith]
      simp only [ih]

/-- `from_mapping` parses its steps with the registry. -/
theorem WorkflowDefinition.fromMapping_eq_with (runtime : Runtime) (registry : ToolRegistry)
    (payload : Value) : fromMapping runtime registry payload =
      fromMappingWith runtime (parseStep runtime registry) payload := by
  have hsteps : parseSteps runtime registry = parseStepsWith (parseStep runtime registry) :=
    funext fun parsed => funext fun rawSteps => parseSteps_eq_with runtime registry rawSteps parsed
  unfold fromMapping
  rw [hsteps]
  rfl

/-- Steps that are parsed make the definition they are the steps of. -/
theorem WorkflowDefinition.fromMappingWith_eq_ok {parse : StepParser} {payload : Value}
    {mapping : List (Value × Value)} {rawSteps : List Value} {parsed : ParsedSteps}
    {definition : WorkflowDefinition} (hmapping : requireMapping none "workflow" payload = .ok mapping)
    (hid : requireString runtime none "definition_id" (.field mapping "definition_id" .none) =
      .ok definition.definitionId)
    (hversion : requirePositiveInt none "version" (.field mapping "version" .none) =
      .ok definition.version)
    (hlisted : Value.field mapping "steps" .none = .list rawSteps)
    (hbounded : rawSteps.length ≤ maxSteps)
    (hparsed : parseStepsWith parse ⟨[], List.nodup_nil⟩ rawSteps = .ok parsed)
    (hedges : (parsed.val.map fun step => step.dependsOn.length).sum ≤ maxEdges)
    (hsteps : definition.steps = sortSteps parsed.val)
    (hdigest : calculateDigest runtime definition.definitionId definition.version definition.steps =
      .ok definition.digest) : fromMappingWith runtime parse payload = .ok definition := by
  -- what is stored is what was parsed, in order of the identifiers
  have hperm : definition.steps.Perm parsed.val := hsteps ▸ perm_sortSteps parsed.val
  -- so the checks of the dependencies pass: the stored definition meets them
  have hknown : ∀ step ∈ parsed.val, ∀ d ∈ step.dependsOn, ∃ other ∈ parsed.val, other.id = d := by
    intro step hstep d hd
    obtain ⟨other, hother, hother'⟩ :=
      definition.dependencies_known step (hperm.mem_iff.mpr hstep) d hd
    exact ⟨other, hperm.mem_iff.mp hother, hother'⟩
  have hacyclic : ∃ rank : String → ℕ, ∀ step ∈ parsed.val, ∀ d ∈ step.dependsOn,
      rank d < rank step.id := by
    obtain ⟨rank, hrank⟩ := definition.acyclic
    exact ⟨rank, fun step hstep => hrank step (hperm.mem_iff.mpr hstep)⟩
  simp only [fromMappingWith, Except.bind_eq_ok_iff]
  refine ⟨mapping, hmapping, definition.definitionId, hid, definition.version, hversion, ?_⟩
  rw [hlisted]
  simp only [if_neg (not_lt.mpr hbounded)]
  refine (Except.bind_of_eq_ok hparsed _).trans ?_
  rw [if_neg (not_lt.mpr hedges)]
  split
  case h_1 hunknown =>
    rw [unknownDependency_eq_none_iff.mpr hknown] at hunknown
    cases hunknown
  split
  case h_1 hcycle =>
    rw [findCycle_dependencies_eq_none parsed.property hknown hacyclic] at hcycle
    cases hcycle
  rw [hsteps] at hdigest
  refine (Except.bind_of_eq_ok hdigest _).trans (congrArg Except.ok ?_)
  exact WorkflowDefinition.ext_data rfl rfl hsteps.symm rfl

theorem fromMapping_eq_ok_iff {payload : Value} {definition : WorkflowDefinition} :
    WorkflowDefinition.fromMapping runtime registry payload = .ok definition ↔
      ∃ mapping rawSteps steps, requireMapping none "workflow" payload = .ok mapping ∧
        definition.ReadFrom runtime registry mapping rawSteps steps := by
  constructor
  -- each check that passes gives one part of what was read
  · intro h
    simp only [WorkflowDefinition.fromMapping, Except.bind_eq_ok_iff] at h
    obtain ⟨mapping, hmapping, definitionId, hid, version, hversion, h⟩ := h
    split at h
    case h_2 => simp at h
    case h_1 rawSteps hraw =>
      split at h
      · simp [Except.bind_eq_ok_iff] at h
      case isFalse hbounded =>
        rw [Except.bind_eq_ok_iff] at h
        obtain ⟨parsed, hparsed, h⟩ := h
        obtain ⟨steps, hread, hval⟩ := parseSteps_eq_ok_iff.mp hparsed
        rw [List.nil_append] at hval
        split at h
        · simp [Except.bind_eq_ok_iff] at h
        case isFalse hedges =>
          split at h
          · simp at h
          split at h
          · simp at h
          simp only [Except.bind_eq_ok_iff, Except.pure_eq_ok_iff] at h
          obtain ⟨digest, hdigest, rfl⟩ := h
          exact ⟨mapping, rawSteps, steps, hmapping, hid, hversion, hraw, not_lt.mp hbounded, hread,
            hval ▸ not_lt.mp hedges, congrArg sortSteps hval, hdigest⟩
  · rintro ⟨mapping, rawSteps, steps, hmapping, h⟩
    -- distinct identifiers, as the stored definition has them
    have hnodup : (steps.map StepDefinition.id).Nodup := by
      refine ((h.steps ▸ perm_sortSteps steps).map _).nodup_iff.mp (List.pairwise_map.mpr ?_)
      exact definition.steps_sorted.imp fun hlt => hlt.ne
    have hparsed : parseStepsWith (parseStep runtime registry) ⟨[], List.nodup_nil⟩ rawSteps =
        .ok ⟨steps, hnodup⟩ := by
      rw [← parseSteps_eq_with]
      exact parseSteps_eq_ok_iff.mpr ⟨steps, h.read, rfl⟩
    rw [WorkflowDefinition.fromMapping_eq_with]
    exact WorkflowDefinition.fromMappingWith_eq_ok hmapping h.definitionId h.version h.listed
      h.bounded hparsed h.edges h.steps h.digest

/-! ## Payloads that differ in order -/

/-- The entries are the same, but for those under `name`, which `R` relates. -/
def EntriesAgree (name : String) (R : Value → Value → Prop) :
    List (Value × Value) → List (Value × Value) → Prop :=
  List.Forall₂ fun a b => a.1 = b.1 ∧ (a.2 = b.2 ∨ a.1 = .str name ∧ R a.2 b.2)

/-- The two are the same, or mappings whose entries agree. -/
inductive MappingsAgree (name : String) (R : Value → Value → Prop) : Value → Value → Prop
  | refl (value : Value) : MappingsAgree name R value value
  | dict {entries entries' : List (Value × Value)} (h : EntriesAgree name R entries entries') :
      MappingsAgree name R (.dict entries) (.dict entries')
  | mappingProxy {entries entries' : List (Value × Value)}
      (h : EntriesAgree name R entries entries') :
      MappingsAgree name R (.mappingProxy entries) (.mappingProxy entries')

/-- The same dependencies, whatever their order and however often each is listed. -/
inductive DependenciesRearranged : Value → Value → Prop
  | list {items items' : List Value} (h : ∀ item, item ∈ items ↔ item ∈ items') :
      DependenciesRearranged (.list items) (.list items')
  | tuple {items items' : List Value} (h : ∀ item, item ∈ items ↔ item ∈ items') :
      DependenciesRearranged (.tuple items) (.tuple items')

/-- A step with its dependencies rearranged. -/
abbrev StepRearranged : Value → Value → Prop := MappingsAgree "depends_on" DependenciesRearranged

/-- The steps in another order, each of them rearranged. -/
inductive StepsRearranged : Value → Value → Prop
  | list {rawSteps permuted rawSteps' : List Value} (hperm : rawSteps.Perm permuted)
      (h : List.Forall₂ StepRearranged permuted rawSteps') :
      StepsRearranged (.list rawSteps) (.list rawSteps')

/-- A payload with its steps rearranged. -/
abbrev PayloadRearranged : Value → Value → Prop := MappingsAgree "steps" StepsRearranged

theorem EntriesAgree.symm {name : String} {R : Value → Value → Prop}
    (hR : ∀ a b, R a b → R b a) {entries entries' : List (Value × Value)}
    (h : EntriesAgree name R entries entries') : EntriesAgree name R entries' entries := by
  refine List.Forall₂.flip (h.imp fun a b => ?_)
  rintro ⟨hkey, heq | ⟨hname, hrel⟩⟩
  · exact ⟨hkey.symm, .inl heq.symm⟩
  · exact ⟨hkey.symm, .inr ⟨hkey ▸ hname, hR _ _ hrel⟩⟩

theorem MappingsAgree.symm {name : String} {R : Value → Value → Prop}
    (hR : ∀ a b, R a b → R b a) {a b : Value} (h : MappingsAgree name R a b) :
    MappingsAgree name R b a := by
  cases h with
  | refl => exact .refl _
  | dict h => exact .dict (h.symm hR)
  | mappingProxy h => exact .mappingProxy (h.symm hR)

theorem DependenciesRearranged.symm (a b : Value) (h : DependenciesRearranged a b) :
    DependenciesRearranged b a := by
  cases h with
  | list h => exact .list fun item => (h item).symm
  | tuple h => exact .tuple fun item => (h item).symm

theorem StepsRearranged.symm (a b : Value) (h : StepsRearranged a b) : StepsRearranged b a := by
  cases h with
  | @list rawSteps _ rawSteps' hperm h =>
      have hback := List.Forall₂.flip
        (h.imp fun _ _ hstep => MappingsAgree.symm DependenciesRearranged.symm hstep)
      -- the steps are put back in order first, and their dependencies then
      obtain ⟨restored, hrestored, hsteps⟩ :
          Relation.Comp List.Perm (List.Forall₂ StepRearranged) rawSteps' rawSteps := by
        rw [← List.forall₂_comp_perm_eq_perm_comp_forall₂]
        exact ⟨_, hback, hperm.symm⟩
      exact .list hrestored hsteps

theorem PayloadRearranged.symm {a b : Value} (h : PayloadRearranged a b) :
    PayloadRearranged b a :=
  MappingsAgree.symm StepsRearranged.symm h

/-! ## Reading rearranged payloads -/

theorem EntriesAgree.refl {name : String} {R : Value → Value → Prop}
    (entries : List (Value × Value)) : EntriesAgree name R entries entries :=
  List.forall₂_same.mpr fun _ _ => ⟨rfl, .inl rfl⟩

theorem MappingsAgree.requireMapping {name : String} {R : Value → Value → Prop} {a b : Value}
    (h : MappingsAgree name R a b) {stepId : Option String} {field : String}
    {entries : List (Value × Value)} (ha : requireMapping stepId field a = .ok entries) :
    ∃ entries', requireMapping stepId field b = .ok entries' ∧
      EntriesAgree name R entries entries' := by
  cases h with
  | refl => exact ⟨entries, ha, .refl entries⟩
  | dict h => exact Except.ok.inj ha ▸ ⟨_, rfl, h⟩
  | mappingProxy h => exact Except.ok.inj ha ▸ ⟨_, rfl, h⟩

/-- Under another name stands the same value. -/
theorem EntriesAgree.field_eq {name : String} {R : Value → Value → Prop}
    {entries entries' : List (Value × Value)} (h : EntriesAgree name R entries entries')
    (other : String) (default : Value) (hne : other ≠ name) :
    Value.field entries' other default = Value.field entries other default := by
  unfold Value.field
  congr 1
  induction h with
  | nil => rfl
  | @cons a b rest rest' hentry _ ih =>
      obtain ⟨key, value⟩ := a
      obtain ⟨key', value'⟩ := b
      obtain ⟨rfl, hvalue⟩ := hentry
      cases key with
      | str key =>
          rw [Value.lookup, Value.lookup, ih]
          split
          case isTrue hkey =>
            have hsame : value = value' := hvalue.resolve_right fun hname =>
              hne (hkey.symm.trans (Value.str.inj hname.1))
            rw [hsame]
          case isFalse => rfl
      | _ => exact ih

theorem EntriesAgree.field {name : String} {R : Value → Value → Prop} (default : Value)
    {entries entries' : List (Value × Value)} (h : EntriesAgree name R entries entries') :
    Value.field entries name default = Value.field entries' name default ∨
      R (Value.field entries name default) (Value.field entries' name default) := by
  unfold Value.field
  induction h with
  | nil => exact .inl rfl
  | @cons a b rest rest' hentry _ ih =>
      obtain ⟨key, value⟩ := a
      obtain ⟨key', value'⟩ := b
      obtain ⟨rfl, hvalue⟩ := hentry
      cases key with
      | str key =>
          rw [Value.lookup, Value.lookup]
          split
          · exact hvalue.imp id And.right
          · exact ih
      | _ => exact ih

theorem requireString_eq_ok_iff {stepId : Option String} {field text : String} {value : Value} :
    requireString runtime stepId field value = .ok text ↔
      value = .str text ∧ runtime.isBlank text = false := by
  constructor
  · intro h
    unfold requireString at h
    split at h
    · split at h
      · cases h
      case isFalse hblank =>
        obtain rfl := Except.ok.inj h
        exact ⟨rfl, Bool.eq_false_of_not_eq_true hblank⟩
    · cases h
  · rintro ⟨rfl, hblank⟩
    rw [requireString, hblank]
    rfl

theorem mapM_requireString_eq_ok_iff {stepId : Option String} {field : String}
    {items : List Value} : ∀ {texts : List String},
    items.mapM (requireString runtime stepId field) = .ok texts ↔
      items = texts.map .str ∧ ∀ text ∈ texts, runtime.isBlank text = false := by
  induction items with
  | nil =>
      intro texts
      cases texts <;> simp [pure, Except.pure]
  | cons item items ih =>
      intro texts
      rw [List.mapM_cons]
      simp only [Except.bind_eq_ok_iff, Except.pure_eq_ok_iff, requireString_eq_ok_iff, ih]
      constructor
      · rintro ⟨text, ⟨rfl, htext⟩, rest, ⟨rfl, hrest⟩, rfl⟩
        exact ⟨rfl, List.forall_mem_cons.mpr ⟨htext, hrest⟩⟩
      · rintro ⟨heq, hall⟩
        cases texts with
        | nil => cases heq
        | cons text rest =>
            obtain ⟨rfl, rfl⟩ := List.cons.inj heq
            obtain ⟨htext, hrest⟩ := List.forall_mem_cons.mp hall
            exact ⟨text, ⟨rfl, htext⟩, rest, ⟨rfl, hrest⟩, rfl⟩

/-- Items of the same values are all texts, or none of both are. -/
theorem mapM_requireString_rearranged {stepId : Option String} {field : String}
    {items items' : List Value} (hsame : ∀ item, item ∈ items ↔ item ∈ items')
    {texts : List String} (h : items.mapM (requireString runtime stepId field) = .ok texts) :
    ∃ texts', items'.mapM (requireString runtime stepId field) = .ok texts' ∧
      ∀ text, text ∈ texts' ↔ text ∈ texts := by
  obtain ⟨rfl, hall⟩ := mapM_requireString_eq_ok_iff.mp h
  have hrange : items' ∈ Set.range (List.map Value.str) := by
    rw [Set.range_list_map]
    intro item hitem
    obtain ⟨text, -, htext⟩ := List.mem_map.mp ((hsame item).mpr hitem)
    exact ⟨text, htext⟩
  obtain ⟨texts', rfl⟩ := hrange
  have hinj : Function.Injective Value.str := fun _ _ => Value.str.inj
  have hmem (text : String) : text ∈ texts' ↔ text ∈ texts := by
    rw [← List.mem_map_of_injective hinj, ← hsame, List.mem_map_of_injective hinj]
  exact ⟨texts', mapM_requireString_eq_ok_iff.mpr ⟨rfl, fun text htext =>
    hall text ((hmem text).mp htext)⟩, hmem⟩

/-- `sorted(set(texts))` depends on the members only. -/
theorem insertionSort_dedup_congr {texts texts' : List String}
    (h : ∀ text, text ∈ texts' ↔ text ∈ texts) :
    texts'.dedup.insertionSort (· ≤ ·) = texts.dedup.insertionSort (· ≤ ·) := by
  have hperm : texts'.dedup.Perm texts.dedup := by
    refine (List.perm_ext_iff_of_nodup (List.nodup_dedup _) (List.nodup_dedup _)).mpr fun text => ?_
    rw [List.mem_dedup, List.mem_dedup, h]
  refine List.Perm.eq_of_pairwise' (List.pairwise_insertionSort (· ≤ ·) _)
    (List.pairwise_insertionSort _ _) ?_
  exact (List.perm_insertionSort _ _).trans (hperm.trans (List.perm_insertionSort _ _).symm)

/-- A sequence is read as the set of its members. -/
theorem DependenciesRearranged.requireStringSequence {a b : Value}
    (h : DependenciesRearranged a b) {stepId : Option String} {field : String}
    {texts : List String} (ha : requireStringSequence runtime stepId field a = .ok texts) :
    requireStringSequence runtime stepId field b = .ok texts := by
  cases h with
  | list hsame | tuple hsame =>
      simp only [ChangePilot.requireStringSequence, Except.bind_eq_ok_iff,
        Except.pure_eq_ok_iff] at ha ⊢
      obtain ⟨listed, hlisted, rfl⟩ := ha
      obtain ⟨listed', hlisted', hmem⟩ := mapM_requireString_rearranged hsame hlisted
      exact ⟨listed', hlisted', insertionSort_dedup_congr hmem⟩

theorem StepDefinition.ReadFrom.rearranged {mapping mapping' : List (Value × Value)}
    {step : StepDefinition} (h : step.ReadFrom runtime registry mapping)
    (hsame : EntriesAgree "depends_on" DependenciesRearranged mapping mapping') :
    step.ReadFrom runtime registry mapping' where
  id := (hsame.field_eq "id" _ (by decide)).symm ▸ h.id
  tool := (hsame.field_eq "tool" _ (by decide)).symm ▸ h.tool
  registered := h.registered
  arguments := (hsame.field_eq "arguments" _ (by decide)).symm ▸ h.arguments
  dependsOn := by
    obtain heq | hrel := hsame.field .none
    · exact heq ▸ h.dependsOn
    · exact hrel.requireStringSequence h.dependsOn
  risk := (hsame.field_eq "risk" _ (by decide)).symm ▸ h.risk
  retry := (hsame.field_eq "retry" _ (by decide)).symm ▸ h.retry
  compensationTool := (hsame.field_eq "compensation_tool" _ (by decide)).symm ▸ h.compensationTool

/-- Each step is read as before, in the order of the payload. -/
theorem ReadsSteps.rearranged {rawSteps rawSteps' : List Value} {steps : List StepDefinition}
    (h : ReadsSteps runtime registry rawSteps steps)
    (hsame : StepsRearranged (.list rawSteps) (.list rawSteps')) :
    ∃ steps', ReadsSteps runtime registry rawSteps' steps' ∧ steps.Perm steps' := by
  cases hsame with
  | @list _ permuted _ hperm hsteps =>
      obtain ⟨steps', hread, hperm'⟩ := List.perm_comp_forall₂ hperm.symm h
      refine ⟨steps', ?_, hperm'.symm⟩
      clear h hperm hperm'
      induction hsteps generalizing steps' with
      | nil => exact List.forall₂_nil_left_iff.mpr (List.forall₂_nil_left_iff.mp hread)
      | @cons rawStep rawStep' _ _ hstep _ ih =>
          obtain ⟨step, rest, ⟨mapping, hmapping, hfrom⟩, hrest, rfl⟩ :=
            List.forall₂_cons_left_iff.mp hread
          obtain ⟨mapping', hmapping', hagree⟩ := hstep.requireMapping hmapping
          exact .cons ⟨mapping', hmapping', hfrom.rearranged hagree⟩ (ih rest hrest)

theorem sortSteps_congr {steps steps' : List StepDefinition} (hperm : steps.Perm steps')
    (hnodup : (steps.map StepDefinition.id).Nodup) : sortSteps steps' = sortSteps steps := by
  have hnodup' := (hperm.map StepDefinition.id).nodup_iff.mp hnodup
  refine List.Perm.eq_of_pairwise (fun a b _ _ hab hba => absurd hba hab.asymm)
    (pairwise_sortSteps hnodup') (pairwise_sortSteps hnodup) ?_
  exact (perm_sortSteps steps').trans (hperm.symm.trans (perm_sortSteps steps).symm)

/-- Neither the order of the steps nor that of the dependencies of a step matters. -/
theorem fromMapping_rearranged {payload payload' : Value} {definition : WorkflowDefinition}
    (hsame : PayloadRearranged payload payload')
    (h : WorkflowDefinition.fromMapping runtime registry payload = .ok definition) :
    WorkflowDefinition.fromMapping runtime registry payload' = .ok definition := by
  rw [fromMapping_eq_ok_iff] at h ⊢
  obtain ⟨mapping, rawSteps, steps, hmapping, hfrom⟩ := h
  obtain ⟨mapping', hmapping', hagree⟩ := hsame.requireMapping hmapping
  have hnodup : (steps.map StepDefinition.id).Nodup := by
    refine ((perm_sortSteps steps).map _).nodup_iff.mp (List.pairwise_map.mpr ?_)
    exact hfrom.steps ▸ definition.steps_sorted.imp fun hlt => hlt.ne
  -- the list of the steps is at the same key, in some order
  obtain ⟨rawSteps', hlisted, hsteps⟩ : ∃ rawSteps',
      Value.field mapping' "steps" .none = .list rawSteps' ∧
        StepsRearranged (.list rawSteps) (.list rawSteps') := by
    have hfield := hagree.field .none
    rw [hfrom.listed] at hfield
    obtain heq | hrel := hfield
    · refine ⟨rawSteps, heq.symm, .list (.refl _) ?_⟩
      exact List.forall₂_same.mpr fun _ _ => .refl _
    · generalize hvalue : Value.field mapping' "steps" .none = value at hrel
      cases hrel with
      | list hperm hrel => exact ⟨_, rfl, .list hperm hrel⟩
  obtain ⟨steps', hread, hperm⟩ := hfrom.read.rearranged hsteps
  refine ⟨mapping', rawSteps', steps', hmapping', ?_⟩
  refine { definitionId := ?_, version := ?_, listed := hlisted, bounded := ?_, read := hread,
           edges := ?_, steps := ?_, digest := hfrom.digest }
  · exact (hagree.field_eq "definition_id" _ (by decide)).symm ▸ hfrom.definitionId
  · exact (hagree.field_eq "version" _ (by decide)).symm ▸ hfrom.version
  -- counts do not depend on the order
  · have hlength : rawSteps'.length = rawSteps.length := by
      rw [hread.length_eq, hfrom.read.length_eq, hperm.length_eq]
    exact hlength ▸ hfrom.bounded
  · exact (hperm.map fun step => step.dependsOn.length).sum_eq ▸ hfrom.edges
  · rw [hfrom.steps, sortSteps_congr hperm hnodup]

end ChangePilot
