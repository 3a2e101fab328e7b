import Mathlib.Algebra.BigOperators.Group.List.Basic
import Mathlib.Algebra.Order.Ring.Rat
import Mathlib.Algebra.Order.Monoid.Unbundled.WithTop
import Mathlib.Tactic.Common

/-!
# Online evaluation

Cases of an evaluation are executed against a real model one after another, each after the
budget has let it pass.  The first case that it refuses ends the evaluation, and the cases
from there on are skipped.

Costs are exact rational numbers, and the limit on them may be infinite.
-/

namespace ChangePilot

/-- The exceptions of the online evaluation, under their class names; `raised` is one of the
functions that the caller hands over. -/
inductive OnlineEvaluationError where
  | disabled (message : String)
  | configurationError (message : String)
  | budgetExceeded (message : String)
  | valueError (message : String)
  | raised (message : String)
  deriving DecidableEq, Repr

structure OnlineEvaluationConfig where
  enabled : Bool := false
  maxCases : ℕ := 1
  maxCalls : ℕ := 1
  maxTotalTokens : ℕ := 1024
  maxEstimatedCost : WithTop ℚ := ((1 / 100 : ℚ) : WithTop ℚ)
  maxCases_pos : 1 ≤ maxCases := by decide
  maxCalls_pos : 1 ≤ maxCalls := by decide
  maxTotalTokens_pos : 1 ≤ maxTotalTokens := by decide
  maxEstimatedCost_pos : 0 < maxEstimatedCost

/-- The estimate of what a case uses. -/
structure UsageEstimate where
  calls : ℤ
  tokens : ℤ
  cost : ℚ
  deriving DecidableEq, Repr

structure OnlineEvaluationOutcome where
  completedCaseIds : List String
  skippedCaseIds : List String
  stopped : Bool
  stopReason : Option String := none
  calls : ℤ
  totalTokens : ℤ
  estimatedCost : ℚ
  deriving DecidableEq, Repr

/-- `require_online_credentials`; `strip` is `str.strip`. -/
def requireOnlineCredentials (strip : String → String) (config : OnlineEvaluationConfig)
    (environment : String → Option String) : Except OnlineEvaluationError String :=
  if config.enabled then
    let apiKey := strip ((environment "CHANGEPILOT_DEEPSEEK_API_KEY").getD "")
    if apiKey = "" then
      .error (.configurationError "CHANGEPILOT_DEEPSEEK_API_KEY is required for online evaluation")
    else .ok apiKey
  else .error (.disabled
    "online evaluation is disabled; set CHANGEPILOT_RUN_ONLINE_EVAL=1 explicitly")

/-! ## The budget -/

structure OnlineEvaluationBudget where
  cases : ℕ := 0
  calls : ℤ := 0
  tokens : ℤ := 0
  estimatedCost : ℚ := 0

namespace OnlineEvaluationBudget

variable (config : OnlineEvaluationConfig) (budget : OnlineEvaluationBudget)

def reserveCase : Except OnlineEvaluationError OnlineEvaluationBudget :=
  if config.maxCases < budget.cases + 1 then .error (.budgetExceeded "sample budget exhausted")
  else .ok { budget with cases := budget.cases + 1 }

def reserveModelUsage (usage : UsageEstimate) :
    Except OnlineEvaluationError OnlineEvaluationBudget :=
  if usage.calls < 0 ∨ usage.tokens < 0 ∨ usage.cost < 0 then
    .error (.valueError "usage reservation cannot be negative")
  else if config.maxCalls < budget.calls + usage.calls then
    .error (.budgetExceeded "model call budget exhausted")
  else if config.maxTotalTokens < budget.tokens + usage.tokens then
    .error (.budgetExceeded "model token budget exhausted")
  else if config.maxEstimatedCost < ((budget.estimatedCost + usage.cost : ℚ) : WithTop ℚ) then
    .error (.budgetExceeded "estimated cost budget exhausted")
  else .ok { budget with
    calls := budget.calls + usage.calls
    tokens := budget.tokens + usage.tokens
    estimatedCost := budget.estimatedCost + usage.cost }

/-- What is reserved for a case before it is executed.  A case that is counted and then
refused for its usage ends the run, so that its count is not looked at again. -/
def reserve (estimate : Except OnlineEvaluationError UsageEstimate) :
    Except OnlineEvaluationError OnlineEvaluationBudget := do
  let reserved ← budget.reserveCase config
  reserved.reserveModelUsage config (← estimate)

end OnlineEvaluationBudget

/-! ## The run -/

section

variable (config : OnlineEvaluationConfig)
  (estimateUsage : String → Except OnlineEvaluationError UsageEstimate)
  (executeCase : (caseId apiKey : String) → Except OnlineEvaluationError Unit) (apiKey : String)

/-- The outcome of a run with what the budget has let pass. -/
def onlineOutcome (budget : OnlineEvaluationBudget) (completed skipped : List String)
    (stopReason : Option String) : OnlineEvaluationOutcome where
  completedCaseIds := completed
  skippedCaseIds := skipped
  stopped := stopReason.isSome
  stopReason := stopReason
  calls := budget.calls
  totalTokens := budget.tokens
  estimatedCost := budget.estimatedCost

/-- The loop over the cases, with the calls of `execute_case` that it makes. -/
def runCases (budget : OnlineEvaluationBudget) (completed : List String) :
    List String → Except OnlineEvaluationError OnlineEvaluationOutcome × List (String × String)
  | [] => (.ok (onlineOutcome budget completed [] none), [])
  | caseId :: rest =>
      match budget.reserve config (estimateUsage caseId) with
      | .error (.budgetExceeded message) =>
          (.ok (onlineOutcome budget completed (caseId :: rest) (some message)), [])
      | .error error => (.error error, [])
      | .ok reserved =>
          match executeCase caseId apiKey with
          | .error error => (.error error, [(caseId, apiKey)])
          | .ok () =>
              let after := runCases reserved (completed ++ [caseId]) rest
              (after.1, (caseId, apiKey) :: after.2)

def runGuardedOnlineCases (strip : String → String) (environment : String → Option String)
    (caseIds : List String) :
    Except OnlineEvaluationError OnlineEvaluationOutcome × List (String × String) :=
  match requireOnlineCredentials strip config environment with
  | .error error => (.error error, [])
  | .ok apiKey => runCases config estimateUsage executeCase apiKey {} [] caseIds

end

end ChangePilot
