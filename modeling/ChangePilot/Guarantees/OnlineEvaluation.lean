import ChangePilot.Evaluation.Online

/-!
# The online evaluation keeps its budget

The budget after some cases is what the estimates of these cases add up to.  A case is let
pass exactly when it still fits with them, so a run executes cases up to the first one that
does not.
-/

namespace ChangePilot

section

variable (config : OnlineEvaluationConfig) (usage : String → UsageEstimate)

/-- What the estimates of the cases add up to. -/
def totalUsage (caseIds : List String) : UsageEstimate where
  calls := (caseIds.map fun caseId => (usage caseId).calls).sum
  tokens := (caseIds.map fun caseId => (usage caseId).tokens).sum
  cost := (caseIds.map fun caseId => (usage caseId).cost).sum

/-- The cases are within all four limits. -/
structure Fits (caseIds : List String) : Prop where
  cases : caseIds.length ≤ config.maxCases
  calls : (totalUsage usage caseIds).calls ≤ config.maxCalls
  tokens : (totalUsage usage caseIds).tokens ≤ config.maxTotalTokens
  cost : ((totalUsage usage caseIds).cost : WithTop ℚ) ≤ config.maxEstimatedCost

structure UsageEstimate.NonNegative (estimate : UsageEstimate) : Prop where
  calls : 0 ≤ estimate.calls
  tokens : 0 ≤ estimate.tokens
  cost : 0 ≤ estimate.cost

/-- The budget after the cases. -/
def budgetAfter (caseIds : List String) : OnlineEvaluationBudget where
  cases := caseIds.length
  calls := (totalUsage usage caseIds).calls
  tokens := (totalUsage usage caseIds).tokens
  estimatedCost := (totalUsage usage caseIds).cost

/-- The run has executed the cases before the first one that does not fit, and no more. -/
structure GuardedRun (apiKey : String) (caseIds : List String) (outcome : OnlineEvaluationOutcome)
    (executed : List (String × String)) : Prop where
  executed : executed = outcome.completedCaseIds.map fun caseId => (caseId, apiKey)
  split : outcome.completedCaseIds ++ outcome.skippedCaseIds = caseIds
  total : totalUsage usage outcome.completedCaseIds =
    ⟨outcome.calls, outcome.totalTokens, outcome.estimatedCost⟩
  within : ∀ passed, passed <+: outcome.completedCaseIds → Fits config usage passed
  refused : ∀ caseId rest, outcome.skippedCaseIds = caseId :: rest →
    ¬ Fits config usage (outcome.completedCaseIds ++ [caseId])
  stopped : outcome.stopped = true ↔ outcome.skippedCaseIds ≠ []

end

section

variable {config : OnlineEvaluationConfig} {usage : String → UsageEstimate}
  {completed : List String} {caseId : String}

theorem fits_nil : Fits config usage [] where
  cases := Nat.zero_le _
  calls := Int.natCast_nonneg _
  tokens := Int.natCast_nonneg _
  cost := config.maxEstimatedCost_pos.le

theorem totalUsage_concat (usage : String → UsageEstimate) (completed : List String)
    (caseId : String) : totalUsage usage (completed ++ [caseId]) =
    ⟨(totalUsage usage completed).calls + (usage caseId).calls,
      (totalUsage usage completed).tokens + (usage caseId).tokens,
      (totalUsage usage completed).cost + (usage caseId).cost⟩ := by
  simp only [totalUsage, List.map_append, List.sum_append, List.map_cons, List.map_nil,
    List.sum_singleton]

/-- A case is let pass exactly when it fits with those before it. -/
theorem reserve_cases (completed : List String) (hnonneg : (usage caseId).NonNegative) :
    let reserved := (budgetAfter usage completed).reserve config (.ok (usage caseId))
    Fits config usage (completed ++ [caseId]) ∧
        reserved = .ok (budgetAfter usage (completed ++ [caseId])) ∨
      ¬ Fits config usage (completed ++ [caseId]) ∧
        ∃ message, reserved = .error (.budgetExceeded message) := by
  intro reserved
  have hcases : (completed ++ [caseId]).length = completed.length + 1 := List.length_append
  -- the number of cases is checked before any usage
  by_cases hmany : config.maxCases < completed.length + 1
  · refine .inr ⟨fun h => ?_, "sample budget exhausted", ?_⟩
    · have hle := h.cases
      omega
    · show (budgetAfter usage completed).reserve config _ = _
      rw [OnlineEvaluationBudget.reserve, OnlineEvaluationBudget.reserveCase,
        if_pos (show config.maxCases < (budgetAfter usage completed).cases + 1 from hmany)]
      rfl
  -- the estimate is not negative, so it is added up
  have hsign : ¬ ((usage caseId).calls < 0 ∨ (usage caseId).tokens < 0 ∨ (usage caseId).cost < 0) := by
    simp only [not_or, not_lt]
    exact ⟨hnonneg.calls, hnonneg.tokens, hnonneg.cost⟩
  have hreserved : reserved = OnlineEvaluationBudget.reserveModelUsage config
      { budgetAfter usage completed with cases := completed.length + 1 } (usage caseId) := by
    show (budgetAfter usage completed).reserve config _ = _
    rw [OnlineEvaluationBudget.reserve, OnlineEvaluationBudget.reserveCase,
      if_neg (show ¬ config.maxCases < (budgetAfter usage completed).cases + 1 from hmany)]
    rfl
  have htotal := totalUsage_concat usage completed caseId
  rw [hreserved]
  unfold OnlineEvaluationBudget.reserveModelUsage
  rw [if_neg hsign]
  -- the three totals, in the order in which they are checked
  split
  case isTrue hcalls =>
    refine .inr ⟨fun h => ?_, _, rfl⟩
    have hle := h.calls
    rw [htotal] at hle
    exact absurd hle (not_le.mpr hcalls)
  split
  case isTrue htokens =>
    refine .inr ⟨fun h => ?_, _, rfl⟩
    have hle := h.tokens
    rw [htotal] at hle
    exact absurd hle (not_le.mpr htokens)
  split
  case isTrue hcost =>
    refine .inr ⟨fun h => ?_, _, rfl⟩
    have hle := h.cost
    rw [htotal] at hle
    exact absurd hle (not_le.mpr hcost)
  -- all of them fit, so the case is added
  case isFalse hcalls htokens hcost =>
    refine .inl ⟨⟨?_, ?_, ?_, ?_⟩, ?_⟩
    · omega
    · rw [htotal]
      exact not_lt.mp hcalls
    · rw [htotal]
      exact not_lt.mp htokens
    · rw [htotal]
      exact not_lt.mp hcost
    · have hafter : budgetAfter usage (completed ++ [caseId]) = ⟨completed.length + 1,
          (totalUsage usage completed).calls + (usage caseId).calls,
          (totalUsage usage completed).tokens + (usage caseId).tokens,
          (totalUsage usage completed).cost + (usage caseId).cost⟩ := by
        simp only [budgetAfter, htotal, hcases]
      rw [hafter]
      rfl

/-- From the budget after the completed cases, the loop goes on to the first case that does
not fit. -/
theorem runCases_guarded {estimateUsage : String → Except OnlineEvaluationError UsageEstimate}
    {executeCase : String → String → Except OnlineEvaluationError Unit} {apiKey : String}
    (cases completed : List String)
    (hestimate : ∀ caseId ∈ cases, estimateUsage caseId = .ok (usage caseId))
    (hnonneg : ∀ caseId ∈ cases, (usage caseId).NonNegative)
    (hexecute : ∀ caseId ∈ cases, executeCase caseId apiKey = .ok ())
    (hwithin : ∀ passed, passed <+: completed → Fits config usage passed) :
    ∃ outcome executed, runCases config estimateUsage executeCase apiKey
        (budgetAfter usage completed) completed cases = (.ok outcome, executed) ∧
      GuardedRun config usage apiKey (completed ++ cases) outcome
        ((completed.map fun caseId => (caseId, apiKey)) ++ executed) := by
  induction cases generalizing completed with
  | nil =>
      refine ⟨_, [], rfl, ?_, rfl, rfl, hwithin, fun _ _ h => ?_, ?_⟩
      · exact List.append_nil _
      · cases h
      · exact iff_of_false Bool.false_ne_true (not_not_intro rfl)
  | cons caseId rest ih =>
      obtain ⟨hthis, hestimate⟩ := List.forall_mem_cons.mp hestimate
      obtain ⟨hsign, hnonneg⟩ := List.forall_mem_cons.mp hnonneg
      obtain ⟨hdone, hexecute⟩ := List.forall_mem_cons.mp hexecute
      rw [runCases, hthis]
      rcases reserve_cases completed hsign with
        ⟨hfits, hreserved⟩ | ⟨hfull, message, hreserved⟩
      -- the case fits and is executed
      · rw [hreserved]
        dsimp only
        rw [hdone]
        obtain ⟨outcome, executed, hrun, hguarded⟩ := ih (completed ++ [caseId])
          hestimate hnonneg hexecute fun passed hpassed => by
            rcases List.prefix_concat_iff.mp hpassed with rfl | hpassed
            · exact hfits
            · exact hwithin passed hpassed
        refine ⟨outcome, (caseId, apiKey) :: executed, ?_, ?_⟩
        · dsimp only
          rw [hrun]
        · rw [List.map_append, List.append_assoc, List.append_assoc] at hguarded
          exact hguarded
      -- the case does not fit, and the run stops in front of it
      · rw [hreserved]
        refine ⟨_, [], rfl, ?_, rfl, rfl, hwithin, fun other more h => ?_, ?_⟩
        · exact List.append_nil _
        · obtain ⟨rfl, _⟩ := List.cons.inj h
          exact hfull
        · exact iff_of_true rfl (List.cons_ne_nil _ _)

end

/-- An enabled online evaluation with credentials executes its cases in order up to the first
one that does not fit into the budget, and reports what they use and what it skips. -/
theorem online_evaluation_keeps_budget (config : OnlineEvaluationConfig) (strip : String → String)
    (environment : String → Option String) {apiKey : String}
    (hcredentials : requireOnlineCredentials strip config environment = .ok apiKey)
    (estimateUsage : String → Except OnlineEvaluationError UsageEstimate)
    (usage : String → UsageEstimate)
    (executeCase : String → String → Except OnlineEvaluationError Unit) (caseIds : List String)
    (hestimate : ∀ caseId ∈ caseIds, estimateUsage caseId = .ok (usage caseId))
    (hnonneg : ∀ caseId ∈ caseIds, (usage caseId).NonNegative)
    (hexecute : ∀ caseId ∈ caseIds, executeCase caseId apiKey = .ok ()) :
    ∃ outcome executed, runGuardedOnlineCases config estimateUsage executeCase strip environment
        caseIds = (.ok outcome, executed) ∧
      GuardedRun config usage apiKey caseIds outcome executed := by
  rw [runGuardedOnlineCases, hcredentials]
  refine runCases_guarded caseIds [] hestimate hnonneg hexecute fun passed hpassed => ?_
  rw [List.prefix_nil.mp hpassed]
  exact fits_nil

namespace Sample

/-- Three cases, of which only one is paid for. -/
def onlineConfig : OnlineEvaluationConfig where
  enabled := true
  maxCases := 3
  maxCalls := 3
  maxTotalTokens := 300
  maxEstimatedCost := ((1 / 100 : ℚ) : WithTop ℚ)
  maxEstimatedCost_pos := WithTop.coe_pos.mpr (by decide +kernel)

def onlineUsage : UsageEstimate := ⟨1, 100, 3 / 500⟩

theorem onlineCredentials :
    requireOnlineCredentials id onlineConfig (fun _ => some "key") = .ok "key" := by
  rw [requireOnlineCredentials, if_pos (show onlineConfig.enabled = true from rfl)]
  exact if_neg (by decide)

end Sample

theorem online_evaluation_keeps_budget_three : ∃ outcome executed,
    runGuardedOnlineCases Sample.onlineConfig (fun _ => .ok Sample.onlineUsage)
      (fun _ _ => .ok ()) id (fun _ => some "key") ["case-1", "case-2", "case-3"] =
        (.ok outcome, executed) ∧
      GuardedRun Sample.onlineConfig (fun _ => Sample.onlineUsage) "key"
        ["case-1", "case-2", "case-3"] outcome executed :=
  online_evaluation_keeps_budget Sample.onlineConfig id (fun _ => some "key")
    Sample.onlineCredentials (fun _ => .ok Sample.onlineUsage) (fun _ => Sample.onlineUsage)
    (fun _ _ => .ok ()) ["case-1", "case-2", "case-3"] (fun _ _ => rfl)
    (fun _ _ => ⟨by decide, by decide, by decide +kernel⟩) fun _ _ => rfl

end ChangePilot
