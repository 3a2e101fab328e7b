import ChangePilot.Application.Scheduler

/-!
# Graphs of steps

`findCycle` reports the steps of a dependency map that can never be reached, and
`compensationOrder` lists the effects of a run against its dependencies.
-/

namespace ChangePilot

/-! ## Cycles -/

/-- The argument of `find_cycle`: each step with the steps it depends on, possibly repeated,
all of which are known. -/
structure DependencyMap where
  graph : Kahn.Graph String
  ids_nodup : (Kahn.nodes graph).Nodup
  known : ∀ id ∈ Kahn.nodes graph, ∀ dependency ∈ Kahn.depsOf graph id,
    dependency ∈ Kahn.nodes graph

namespace DependencyMap

/-- A step depends directly on another. -/
def DependsOn (dependencies : DependencyMap) (id dependency : String) : Prop :=
  dependency ∈ Kahn.depsOf dependencies.graph id

/-- No step depends on itself, directly or through others. -/
def Acyclic (dependencies : DependencyMap) : Prop :=
  ∀ id, ¬ Relation.TransGen dependencies.DependsOn id id

/-- `find_cycle`. -/
def findCycle (dependencies : DependencyMap) : Option (List String) :=
  Kahn.findCycle dependencies.graph

/-- `find_cycle` answers nothing exactly if there is no cycle, and otherwise, in order, the
steps that lie on a cycle or depend on one that does. -/
theorem findCycle_decides (dependencies : DependencyMap) :
    (dependencies.findCycle = none ↔ dependencies.Acyclic) ∧
      ∀ steps, dependencies.findCycle = some steps → steps.Pairwise (· < ·) ∧
        ∀ id, id ∈ steps ↔ ∃ other, Relation.ReflTransGen dependencies.DependsOn id other ∧
          Relation.TransGen dependencies.DependsOn other other :=
  ⟨Kahn.findCycle_eq_none_iff dependencies.ids_nodup dependencies.known,
    fun _ h => Kahn.findCycle_eq_some dependencies.ids_nodup dependencies.known h⟩

end DependencyMap

/-- `a` and `b` depend on each other, `c` on `a`, twice, and `d` on nothing. -/
def Sample.loop : DependencyMap where
  graph := [("c", ["a", "a", "d"]), ("a", ["b"]), ("b", ["a"]), ("d", [])]
  ids_nodup := by decide
  known := by decide

open Sample in
theorem DependencyMap.findCycle_decides_loop :
    loop.findCycle = some ["a", "b", "c"] ∧ ¬ loop.Acyclic ∧
      ∃ other, Relation.ReflTransGen loop.DependsOn "c" other ∧
        Relation.TransGen loop.DependsOn other other := by
  have hreported : loop.findCycle = some ["a", "b", "c"] := by decide +kernel
  obtain ⟨hnone, hsome⟩ := findCycle_decides loop
  refine ⟨hreported, fun hacyclic => ?_, ((hsome _ hreported).2 "c").mp (by decide)⟩
  cases hreported.symm.trans (hnone.mpr hacyclic)

/-! ## Compensation -/

section

variable {definition : WorkflowDefinition} {stepRuns stepRuns' : List StepRun}
  {attempts attempts' : List StepAttempt}

/-- The row that counts for a step, if there is one row for each. -/
theorem stepRunById_eq_some_iff (hnodup : (stepRuns.map StepRun.stepId).Nodup) {stepId : String}
    {row : StepRun} :
    stepRunById stepRuns stepId = some row ↔ row ∈ stepRuns ∧ row.stepId = stepId := by
  constructor
  · intro h
    exact ⟨List.mem_reverse.mp (List.mem_of_find?_eq_some h), by simpa using List.find?_some h⟩
  · rintro ⟨hrow, rfl⟩
    cases hfind : stepRunById stepRuns row.stepId with
    | none =>
        have hnone := List.find?_eq_none.mp hfind row (List.mem_reverse.mpr hrow)
        exact absurd (decide_eq_true rfl) hnone
    | some other =>
        have hother : other.stepId = row.stepId := by simpa using List.find?_some hfind
        exact congrArg some (List.inj_on_of_nodup_map hnodup
          (List.mem_reverse.mp (List.mem_of_find?_eq_some hfind)) hrow hother)

theorem stepRunById_perm (hperm : stepRuns'.Perm stepRuns)
    (hnodup : (stepRuns.map StepRun.stepId).Nodup) :
    stepRunById stepRuns' = stepRunById stepRuns := by
  funext stepId
  refine Option.ext fun row => ?_
  rw [stepRunById_eq_some_iff ((hperm.map _).nodup_iff.mpr hnodup),
    stepRunById_eq_some_iff hnodup, hperm.mem_iff]

/-- The order is read off the row of each step and off which attempts there are. -/
theorem compensationOrder_congr (hids : idsMatch definition stepRuns' ↔ idsMatch definition stepRuns)
    (hrows : stepRunById stepRuns' = stepRunById stepRuns)
    (hattempts : ∀ attempt, attempt ∈ attempts' ↔ attempt ∈ attempts) :
    compensationOrder definition stepRuns' attempts' =
      compensationOrder definition stepRuns attempts := by
  have hcompensable : compensable definition stepRuns' attempts' =
      compensable definition stepRuns attempts :=
    List.filter_congr fun step _ => decide_eq_decide.mpr <| by
      simp only [stepStateIs, hrows, hattempts]
  have hkey : compensationKey stepRuns' = compensationKey stepRuns := by
    funext step
    rw [compensationKey, compensationKey, hrows]
  unfold compensationOrder
  rw [hcompensable, hkey]
  exact if_congr (not_congr hids) rfl rfl

/-- `completion_sequence or 0` of the step. -/
def completionOf (stepRuns : List StepRun) (step : StepDefinition) : ℕ :=
  ((stepRunById stepRuns step.id).bind StepRun.completionSequence).getD 0

theorem compensationKey_le_iff {a b : StepDefinition} :
    compensationKey stepRuns a ≤ compensationKey stepRuns b ↔
      completionOf stepRuns b < completionOf stepRuns a ∨
        completionOf stepRuns b = completionOf stepRuns a ∧ a.id ≤ b.id := by
  rw [compensationKey, compensationKey, Prod.Lex.toLex_le_toLex]
  simp only [completionOf, neg_lt_neg_iff, neg_inj, Nat.cast_lt, Nat.cast_inj]
  rw [eq_comm]

/-- The loop of `compensation_order` always finds a leaf.  It lists the steps with an effect to
compensate, each once; a step comes after those that depend on it, and before the others that
no remaining one depends on, unless they have completed later, or at the same place with a
lesser id.  The order of the rows and of the attempts does not matter. -/
theorem compensationOrder_reverse_linearisation (hids : idsMatch definition stepRuns)
    (attempts : List StepAttempt) :
    ∃ ordered, compensationOrder definition stepRuns attempts = .ok ordered ∧ ordered.Nodup ∧
      (∀ step, step ∈ ordered ↔ step ∈ definition.steps ∧ step.compensationTool.isSome ∧
        stepStateIs stepRuns step.id [.succeeded] ∧
          ∃ attempt ∈ attempts, attempt.stepId = step.id ∧ attempt.ForwardEffect) ∧
      (∀ front step rest, ordered = front ++ step :: rest →
        (∀ other ∈ rest, step.id ∉ other.dependsOn) ∧
          ∀ other ∈ rest, (∀ later ∈ step :: rest, other.id ∉ later.dependsOn) →
            completionOf stepRuns other < completionOf stepRuns step ∨
              completionOf stepRuns other = completionOf stepRuns step ∧ step.id < other.id) ∧
      ((stepRuns.map StepRun.stepId).Nodup → ∀ stepRuns' attempts', stepRuns'.Perm stepRuns →
        (∀ attempt, attempt ∈ attempts' ↔ attempt ∈ attempts) →
          compensationOrder definition stepRuns' attempts' = .ok ordered) := by
  obtain ⟨ordered, hordered⟩ := compensationOrder_isOk attempts hids
  obtain ⟨hperm, hgreedy⟩ := compensationOrder_spec hordered
  have hordered_ids : (ordered.map StepDefinition.id).Nodup :=
    (hperm.map _).nodup_iff.mpr (definition.ids_nodup.sublist (List.filter_sublist.map _))
  refine ⟨ordered, hordered, hordered_ids.of_map _, fun step => mem_compensationOrder hordered,
    ?_, fun hnodup stepRuns' attempts' hrows hattempts => ?_⟩
  · rintro front step rest rfl
    obtain ⟨hblocked, hleast, -⟩ := Linearisation.Greedy.of_append hgreedy
    refine ⟨hblocked, fun other hother hfree => ?_⟩
    have hle := compensationKey_le_iff.mp <| hleast other <|
      Linearisation.mem_leaves.mpr ⟨List.mem_cons_of_mem _ hother, hfree⟩
    refine hle.imp_right fun ⟨hsame, hid⟩ => ⟨hsame, lt_of_le_of_ne hid fun heq => ?_⟩
    rw [List.map_append, List.map_cons] at hordered_ids
    have hfresh := (List.nodup_cons.mp (List.nodup_append.mp hordered_ids).2.1).1
    exact hfresh (heq ▸ List.mem_map_of_mem hother)
  · have hmatch : idsMatch definition stepRuns' ↔ idsMatch definition stepRuns := by
      simp only [idsMatch, hrows.mem_iff, (hrows.map StepRun.stepId).mem_iff]
    rw [compensationOrder_congr hmatch (stepRunById_perm hrows hnodup) hattempts]
    exact hordered

end

namespace Sample

/-- A step that can be undone. -/
def undoable (id : String) (dependsOn : List String) : StepDefinition where
  id := id
  tool := ⟨"change", "1"⟩
  arguments := .ofFields []
  dependsOn := dependsOn
  retry := default
  compensationTool := some ⟨"undo", "1"⟩

/-- `B` depends on `A`. -/
def chain : WorkflowDefinition where
  definitionId := "d"
  version := 1
  steps := [undoable "A" [], undoable "B" ["A"]]
  digest := ""
  steps_sorted := by decide
  dependencies_known := by simp [undoable]
  acyclic := ⟨fun id => if id = "A" then 0 else 1, by simp [undoable]⟩

/-- Both steps have succeeded; the row of `B` has lost its place. -/
def succeededRows : List StepRun :=
  [{ runId := "r", stepId := "A", state := .succeeded, completionSequence := some 1 },
    { runId := "r", stepId := "B", state := .succeeded }]

def forwardEffect (stepId : String) : StepAttempt where
  runId := "r"
  stepId := stepId
  attemptNo := 1
  phase := .forward
  attemptId := stepId
  status := .success
  idempotencyKey := stepId
  startedAt := 0
  effectApplied := true

end Sample

open Sample in
theorem compensationOrder_reverse_linearisation_chain :
    ∃ ordered, compensationOrder chain succeededRows [forwardEffect "A", forwardEffect "B"] =
        .ok ordered ∧ ordered.map StepDefinition.id = ["B", "A"] ∧
      compensationOrder chain succeededRows.reverse [forwardEffect "B", forwardEffect "A"] =
        .ok ordered := by
  have hids : idsMatch chain succeededRows := by decide +kernel
  have hcomputed : (compensationOrder chain succeededRows
      [forwardEffect "A", forwardEffect "B"]).toOption.map (List.map StepDefinition.id) =
        some ["B", "A"] := by
    decide +kernel
  obtain ⟨ordered, hordered, -, -, -, hsame⟩ :=
    compensationOrder_reverse_linearisation hids [forwardEffect "A", forwardEffect "B"]
  rw [hordered] at hcomputed
  refine ⟨ordered, hordered, Option.some.inj hcomputed, hsame (by decide) _ _
    (List.reverse_perm _) fun attempt => ?_⟩
  simp [or_comm]

end ChangePilot
