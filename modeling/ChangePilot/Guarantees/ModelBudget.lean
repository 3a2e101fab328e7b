import ChangePilot.Library.Runs
import ChangePilot.Planning.ModelGateway
import ChangePilot.System.Sample
import Mathlib.Data.List.Infix

/-!
# The model budgets

A gateway that serves one request at a time never calls the inner one more often
than it may.  It does not look at the tokens and the costs before it calls, and what
it rejects as over budget it does not count, so that these two maxima are kept
exactly along the runs in which every request that is not answered from the cache
finds both totals below their maxima, and every response fits in what is left.

Concurrent requests share one counter.  A request checks it before its first call
without awaiting in between, but a retry checks it before it sleeps, and calls when it
wakes up, whatever the counter has become.
-/

namespace ChangePilot

/-! ## What the inner gateway was paid for -/

def InnerEnd.tokens : InnerEnd → ℕ
  | .response answer => answer.usage.totalTokens
  | _ => 0

def InnerEnd.cost (pricing : ModelPricing) : InnerEnd → ℕ
  | .response answer => pricing.estimateCost answer
  | _ => 0

def receivedTokens (answers : List InnerEnd) : ℕ := (answers.map InnerEnd.tokens).sum

def receivedCost (pricing : ModelPricing) (answers : List InnerEnd) : ℕ :=
  (answers.map (InnerEnd.cost pricing)).sum

namespace ModelBudget

/-- Both sums are below their maxima. -/
def Below (budget : ModelBudget) (tokens cost : ℕ) : Prop :=
  tokens < budget.maxTotalTokens ∧ ∀ maximum ∈ budget.maxEstimatedCostMicrounits, cost < maximum

/-- Neither sum is above its maximum. -/
def Fits (budget : ModelBudget) (tokens cost : ℕ) : Prop :=
  tokens ≤ budget.maxTotalTokens ∧ ∀ maximum ∈ budget.maxEstimatedCostMicrounits, cost ≤ maximum

end ModelBudget

/-! ## The property and the condition -/

section

variable (config : GatewayConfig)

/-- The inner gateway was not called when one of the sums had reached its maximum. -/
def Timely (answers : List InnerEnd) : Prop :=
  ∀ before answer, before ++ [answer] <+: answers →
    config.budget.Below (receivedTokens before) (receivedCost config.pricing before)

/-- The budget has been kept: the inner gateway was not called too often, the totals
are those of all its responses, and every call was timely. -/
structure BudgetKept (run : GatewayRun) : Prop where
  calls : run.answers.length ≤ config.budget.maxCalls
  tokens : run.state.totalTokens = receivedTokens run.answers
  cost : run.state.estimatedCostMicrounits = receivedCost config.pricing run.answers
  timely : Timely config run.answers

/-- The response among the first answers, if no other end comes before it. -/
def firstResponse (inner : ℕ → InnerEnd) : (attempts first : ℕ) → Option ModelResponse
  | 0, _ => none
  | attempts + 1, first =>
      match inner first with
      | .response response => some response
      | .failed _ => none
      | .transient => firstResponse inner attempts (first + 1)

/-- How often a request may call the inner gateway. -/
def GatewayConfig.attempts (state : GatewayState) : ℕ :=
  min (config.maxRetries + 1) (config.budget.maxCalls - state.calls)

/-- The request is answered without a call or not at all, or both totals are below
their maxima and the response fits in what is left. -/
def GatewayTurn.WithinBudget (run : GatewayRun) (turn : GatewayTurn) : Prop :=
  ∀ requestDigest, config.requestDigest turn.request = .ok requestDigest →
    run.state.cache requestDigest = none → run.state.calls < config.budget.maxCalls →
      config.budget.Below run.state.totalTokens run.state.estimatedCostMicrounits ∧
        ∀ response ∈ firstResponse turn.inner (config.attempts run.state) 0,
          config.budget.Fits (run.state.totalTokens + response.usage.totalTokens)
            (run.state.estimatedCostMicrounits + config.pricing.estimateCost response)

end

section

variable {config : GatewayConfig} {run : GatewayRun} {turn : GatewayTurn}

/-! ## Answers that are no responses -/

theorem timely_concat {answers : List InnerEnd} {answer : InnerEnd} :
    Timely config (answers ++ [answer]) ↔ Timely config answers ∧
      config.budget.Below (receivedTokens answers) (receivedCost config.pricing answers) := by
  unfold Timely
  constructor
  · intro h
    refine ⟨fun before last hbegins => h before last ?_, h answers answer List.prefix_rfl⟩
    exact hbegins.trans (List.prefix_append ..)
  · intro h before last hbegins
    rcases List.prefix_concat_iff.mp hbegins with heq | hbegins
    · rw [List.append_inj_left' heq rfl]
      exact h.2
    · exact h.1 before last hbegins

/-- The answers to one request: some transient failures, and the last one. -/
def attemptAnswers (failures : ℕ) (last : InnerEnd) : List InnerEnd :=
  List.replicate failures .transient ++ [last]

theorem receivedTokens_attempt (answers : List InnerEnd) (failures : ℕ) (last : InnerEnd) :
    receivedTokens (answers ++ attemptAnswers failures last) =
      receivedTokens answers + last.tokens := by
  simp [receivedTokens, attemptAnswers, InnerEnd.tokens]

theorem receivedCost_attempt (pricing : ModelPricing) (answers : List InnerEnd) (failures : ℕ)
    (last : InnerEnd) : receivedCost pricing (answers ++ attemptAnswers failures last) =
      receivedCost pricing answers + last.cost pricing := by
  simp [receivedCost, attemptAnswers, InnerEnd.cost]

/-- Transient failures are paid nothing, so that the calls are all timely or none is. -/
theorem timely_attempt (answers : List InnerEnd) (failures : ℕ) (last : InnerEnd) :
    Timely config (answers ++ attemptAnswers failures last) ↔ Timely config answers ∧
      config.budget.Below (receivedTokens answers) (receivedCost config.pricing answers) := by
  induction failures generalizing last with
  | zero => exact timely_concat
  | succ failures ih =>
      have hsplit : answers ++ attemptAnswers (failures + 1) last =
          (answers ++ attemptAnswers failures .transient) ++ [last] := by
        simp [attemptAnswers, List.replicate_succ']
      rw [hsplit, timely_concat, ih, receivedTokens_attempt, receivedCost_attempt]
      exact ⟨fun h => h.1, fun h => ⟨h, h.2⟩⟩

/-! ## One request -/

/-- The loop makes some calls that fail for a moment and one that ends it, and leaves
the totals alone. -/
theorem callInner_spec {inner : ℕ → InnerEnd} {retriesLeft : ℕ} :
    ∀ {retryCount : ℕ} {run : GatewayRun}, run.state.calls < config.budget.maxCalls →
      ∃ failures last,
        (BudgetedModelGateway.callInner config inner retriesLeft retryCount run).2 =
          ⟨{ run.state with calls := run.state.calls + (failures + 1) },
            run.answers ++ attemptAnswers failures last⟩ ∧
        run.state.calls + (failures + 1) ≤ config.budget.maxCalls ∧
        ((∃ response count, last = .response response ∧
            firstResponse inner (min (retriesLeft + 1) (config.budget.maxCalls - run.state.calls))
              retryCount = some response ∧
            (BudgetedModelGateway.callInner config inner retriesLeft retryCount run).1 =
              .ok (response, count)) ∨
          (last.tokens = 0 ∧ last.cost config.pricing = 0 ∧
            firstResponse inner (min (retriesLeft + 1) (config.budget.maxCalls - run.state.calls))
              retryCount = none ∧
            ∃ error, (BudgetedModelGateway.callInner config inner retriesLeft retryCount run).1 =
              .error error)) := by
  induction retriesLeft with
  -- no retry is left: one attempt, whatever it ends in
  | zero =>
      intro retryCount run hcalls
      have hattempts : min (0 + 1) (config.budget.maxCalls - run.state.calls) = 1 := by omega
      rw [hattempts]
      refine ⟨0, inner retryCount, ?_, hcalls, ?_⟩
      · unfold BudgetedModelGateway.callInner
        cases inner retryCount <;> rfl
      · unfold BudgetedModelGateway.callInner firstResponse
        cases inner retryCount with
        | response response => exact Or.inl ⟨response, retryCount, rfl, rfl, rfl⟩
        | transient => exact Or.inr ⟨rfl, rfl, rfl, _, rfl⟩
        | failed error => exact Or.inr ⟨rfl, rfl, rfl, _, rfl⟩
  | succ retriesLeft ih =>
      intro retryCount run hcalls
      have hattempts : min (retriesLeft + 1 + 1) (config.budget.maxCalls - run.state.calls) =
          min (retriesLeft + 1) (config.budget.maxCalls - (run.state.calls + 1)) + 1 := by omega
      rw [hattempts, firstResponse, BudgetedModelGateway.callInner]
      cases hanswer : inner retryCount with
      | response response =>
          exact ⟨0, .response response, rfl, hcalls, Or.inl ⟨response, retryCount, rfl, rfl, rfl⟩⟩
      | failed error => exact ⟨0, .failed error, rfl, hcalls, Or.inr ⟨rfl, rfl, rfl, _, rfl⟩⟩
      -- only a transient failure is tried again
      | transient =>
          simp only
          by_cases hexhausted : config.budget.maxCalls ≤ (run.call .transient).state.calls
          -- the failed attempt was the last one that the budget allows
          · have hnone : min (retriesLeft + 1)
                (config.budget.maxCalls - (run.state.calls + 1)) = 0 := by
              simp only [GatewayRun.call] at hexhausted
              omega
            rw [hnone, if_pos hexhausted]
            exact ⟨0, .transient, rfl, hcalls, Or.inr ⟨rfl, rfl, rfl, _, rfl⟩⟩
          · rw [if_neg hexhausted]
            -- the remaining attempts, with this one counted
            obtain ⟨failures, last, hrun, hle, hends⟩ :=
              @ih (retryCount + 1) (run.call .transient) (not_le.mp hexhausted)
            refine ⟨failures + 1, last, hrun.trans ?_, ?_, hends⟩
            · have hanswers : (run.call .transient).answers ++ attemptAnswers failures last =
                  run.answers ++ attemptAnswers (failures + 1) last := by
                simp [GatewayRun.call, attemptAnswers, List.replicate_succ]
              rw [hanswers]
              simp only [GatewayRun.call, GatewayRun.mk.injEq, GatewayState.mk.injEq, and_true]
              omega
            · simp only [GatewayRun.call] at hle
              omega

/-- A response that fits is recorded. -/
theorem settle_of_fits (requestDigest : String) {response : ModelResponse} (retryCount : ℕ)
    {state : GatewayState}
    (h : config.budget.Fits (state.totalTokens + response.usage.totalTokens)
      (state.estimatedCostMicrounits + config.pricing.estimateCost response)) :
    config.settle requestDigest response retryCount state =
      (.ok response, config.record requestDigest response retryCount { state with
        totalTokens := state.totalTokens + response.usage.totalTokens
        estimatedCostMicrounits :=
          state.estimatedCostMicrounits + config.pricing.estimateCost response
        cache := Function.update state.cache requestDigest (some response) }) := by
  have hany : ¬ (config.budget.maxEstimatedCostMicrounits.any fun cost =>
      cost < state.estimatedCostMicrounits + config.pricing.estimateCost response) = true := by
    intro hany
    obtain ⟨maximum, hmaximum, hlt⟩ := (Option.any_eq_true ..).mp hany
    exact absurd (h.2 maximum hmaximum) (not_le.mpr (of_decide_eq_true hlt))
  unfold GatewayConfig.settle
  exact (if_neg (not_lt.mpr h.1)).trans (if_neg hany)

/-- A response that does not fit is rejected, and nothing is recorded of it. -/
theorem settle_of_not_fits (requestDigest : String) {response : ModelResponse} (retryCount : ℕ)
    {state : GatewayState}
    (h : ¬ config.budget.Fits (state.totalTokens + response.usage.totalTokens)
      (state.estimatedCostMicrounits + config.pricing.estimateCost response)) :
    ∃ error, config.settle requestDigest response retryCount state = (.error error, state) := by
  unfold GatewayConfig.settle
  by_cases htokens : config.budget.maxTotalTokens < state.totalTokens + response.usage.totalTokens
  · exact ⟨_, if_pos htokens⟩
  · refine ⟨_, (if_neg htokens).trans (if_pos ?_)⟩
    by_contra hany
    refine h ⟨not_lt.mp htokens, fun maximum hmaximum => not_lt.mp fun hlt => hany ?_⟩
    exact (Option.any_eq_true ..).mpr ⟨maximum, hmaximum, decide_eq_true hlt⟩

/-- The calls of a request, and what becomes of the totals. -/
structure Charged (config : GatewayConfig) (run : GatewayRun) (turn : GatewayTurn)
    (after : GatewayRun) (failures : ℕ) (last : InnerEnd) : Prop where
  answers : after.answers = run.answers ++ attemptAnswers failures last
  calls : after.state.calls = run.state.calls + (failures + 1)
  calls_le : run.state.calls + (failures + 1) ≤ config.budget.maxCalls
  condition : turn.WithinBudget config run ↔
    config.budget.Below run.state.totalTokens run.state.estimatedCostMicrounits ∧
      config.budget.Fits (run.state.totalTokens + last.tokens)
        (run.state.estimatedCostMicrounits + last.cost config.pricing)
  accepted : config.budget.Fits (run.state.totalTokens + last.tokens)
      (run.state.estimatedCostMicrounits + last.cost config.pricing) →
    after.state.totalTokens = run.state.totalTokens + last.tokens ∧
      after.state.estimatedCostMicrounits =
        run.state.estimatedCostMicrounits + last.cost config.pricing
  rejected : ¬ config.budget.Fits (run.state.totalTokens + last.tokens)
      (run.state.estimatedCostMicrounits + last.cost config.pricing) →
    after.state.totalTokens = run.state.totalTokens ∧
      after.state.estimatedCostMicrounits = run.state.estimatedCostMicrounits

/-- Nothing was called, and the totals are as they were. -/
structure Untouched (run after : GatewayRun) : Prop where
  answers : after.answers = run.answers
  calls : after.state.calls = run.state.calls
  tokens : after.state.totalTokens = run.state.totalTokens
  cost : after.state.estimatedCostMicrounits = run.state.estimatedCostMicrounits

/-- A request either calls nothing, or makes the calls of the loop and is charged for
the last one. -/
theorem next_cases (hfits : config.budget.Fits run.state.totalTokens
      run.state.estimatedCostMicrounits) :
    (turn.WithinBudget config run ∧ Untouched run (BudgetedModelGateway.next config run turn)) ∨
    ∃ failures last,
      Charged config run turn (BudgetedModelGateway.next config run turn) failures last := by
  unfold BudgetedModelGateway.next BudgetedModelGateway.generate
  -- a request whose digest fails never reaches the inner gateway
  cases hdigest : config.requestDigest turn.request with
  | error error =>
      refine Or.inl ⟨fun requestDigest hok => ?_, rfl, rfl, rfl, rfl⟩
      rw [hdigest] at hok
      cases hok
  | ok requestDigest =>
  simp only
  cases hcache : run.state.cache requestDigest with
  -- a cached answer is no call
  | some cached =>
      rw [GatewayConfig.fromCache, hcache]
      refine Or.inl ⟨fun other hok hnone => ?_, rfl, rfl, rfl, rfl⟩
      rw [hdigest] at hok
      rw [← Except.ok.inj hok, hcache] at hnone
      cases hnone
  | none =>
  rw [GatewayConfig.fromCache, hcache]
  simp only [Option.map_none]
  by_cases hcalls : config.budget.maxCalls ≤ run.state.calls
  · rw [if_pos hcalls]
    exact Or.inl ⟨fun _ _ _ h => absurd h (not_lt.mpr hcalls), rfl, rfl, rfl, rfl⟩
  rw [if_neg hcalls]
  -- from here on the inner gateway is called, so the premises of the condition hold
  have hcondition : turn.WithinBudget config run ↔
      config.budget.Below run.state.totalTokens run.state.estimatedCostMicrounits ∧
        ∀ response ∈ firstResponse turn.inner (config.attempts run.state) 0,
          config.budget.Fits (run.state.totalTokens + response.usage.totalTokens)
            (run.state.estimatedCostMicrounits + config.pricing.estimateCost response) := by
    constructor
    · exact fun h => h requestDigest hdigest hcache (not_le.mp hcalls)
    · exact fun h _ _ _ _ => h
  obtain ⟨failures, last, hrun, hle, hends⟩ :=
    @callInner_spec config turn.inner config.maxRetries 0 run (not_le.mp hcalls)
  refine Or.inr ⟨failures, last, ?_⟩
  rcases hends with ⟨response, count, rfl, hfirst, hok⟩ | ⟨htokens, hcost, hfirst, error, herror⟩
  -- some attempt was answered: the turn is charged with the response
  case inl =>
    have hloop : BudgetedModelGateway.callInner config turn.inner config.maxRetries 0 run =
        (.ok (response, count),
          ⟨{ run.state with calls := run.state.calls + (failures + 1) },
            run.answers ++ attemptAnswers failures (.response response)⟩) :=
      Prod.ext hok hrun
    have hiff : turn.WithinBudget config run ↔
        config.budget.Below run.state.totalTokens run.state.estimatedCostMicrounits ∧
          config.budget.Fits (run.state.totalTokens + response.usage.totalTokens)
            (run.state.estimatedCostMicrounits + config.pricing.estimateCost response) := by
      rw [hcondition, GatewayConfig.attempts, hfirst]
      exact and_congr_right fun _ => ⟨fun h => h response rfl, fun h other hother =>
        Option.some.inj hother ▸ h⟩
    rw [hloop]
    -- whether the response itself still fits
    by_cases hresponse : config.budget.Fits (run.state.totalTokens + response.usage.totalTokens)
        (run.state.estimatedCostMicrounits + config.pricing.estimateCost response)
    · have hsettled := @settle_of_fits config requestDigest response count
        { run.state with calls := run.state.calls + (failures + 1) } hresponse
      simp only [hsettled]
      exact ⟨rfl, rfl, hle, hiff, fun _ => ⟨rfl, rfl⟩, fun h => absurd hresponse h⟩
    · obtain ⟨error, hsettled⟩ := @settle_of_not_fits config requestDigest response count
        { run.state with calls := run.state.calls + (failures + 1) } hresponse
      simp only [hsettled]
      exact ⟨rfl, rfl, hle, hiff, fun h => absurd h hresponse, fun _ => ⟨rfl, rfl⟩⟩
  -- no attempt was answered, and a failure costs nothing
  case inr =>
    have hloop : BudgetedModelGateway.callInner config turn.inner config.maxRetries 0 run =
        (.error error,
          ⟨{ run.state with calls := run.state.calls + (failures + 1) },
            run.answers ++ attemptAnswers failures last⟩) :=
      Prod.ext herror hrun
    have hiff : turn.WithinBudget config run ↔
        config.budget.Below run.state.totalTokens run.state.estimatedCostMicrounits ∧
          config.budget.Fits (run.state.totalTokens + last.tokens)
            (run.state.estimatedCostMicrounits + last.cost config.pricing) := by
      rw [hcondition, GatewayConfig.attempts, hfirst, htokens, hcost]
      exact and_congr_right fun _ => iff_of_true nofun hfits
    rw [hloop]
    refine ⟨rfl, rfl, hle, hiff, fun _ => ?_, fun h => absurd ?_ h⟩
    · rw [htokens, hcost]
      exact ⟨rfl, rfl⟩
    · rw [htokens, hcost]
      exact hfits

/-! ## Runs -/

/-- Calls are counted, no more than allowed, and no more is recorded than was received
or fits. -/
structure GatewayRun.Counted (config : GatewayConfig) (run : GatewayRun) : Prop where
  calls : run.state.calls = run.answers.length
  calls_le : run.state.calls ≤ config.budget.maxCalls
  tokens_le : run.state.totalTokens ≤ receivedTokens run.answers
  cost_le : run.state.estimatedCostMicrounits ≤ receivedCost config.pricing run.answers
  fits : config.budget.Fits run.state.totalTokens run.state.estimatedCostMicrounits

theorem counted_next (h : run.Counted config) :
    (BudgetedModelGateway.next config run turn).Counted config := by
  rcases @next_cases config run turn h.fits with ⟨_, hsame⟩ | ⟨failures, last, hcharged⟩
  -- nothing was called
  · constructor
    case calls => rw [hsame.calls, hsame.answers]; exact h.calls
    case calls_le => rw [hsame.calls]; exact h.calls_le
    case tokens_le => rw [hsame.tokens, hsame.answers]; exact h.tokens_le
    case cost_le => rw [hsame.cost, hsame.answers]; exact h.cost_le
    case fits => rw [hsame.tokens, hsame.cost]; exact h.fits
  -- every failure was one call, and so was the last answer
  · have hlength : (attemptAnswers failures last).length = failures + 1 := by
      simp [attemptAnswers]
    have htokens := h.tokens_le
    have hcost := h.cost_le
    by_cases hfits : config.budget.Fits (run.state.totalTokens + last.tokens)
        (run.state.estimatedCostMicrounits + last.cost config.pricing)
    · obtain ⟨htokens', hcost'⟩ := hcharged.accepted hfits
      constructor
      case calls =>
        rw [hcharged.calls, hcharged.answers, List.length_append, hlength, h.calls]
      case calls_le => rw [hcharged.calls]; exact hcharged.calls_le
      case tokens_le =>
        rw [htokens', hcharged.answers, receivedTokens_attempt]
        omega
      case cost_le =>
        rw [hcost', hcharged.answers, receivedCost_attempt]
        omega
      case fits => rw [htokens', hcost']; exact hfits
    -- a rejected response is counted as a call, but its usage is not added
    · obtain ⟨htokens', hcost'⟩ := hcharged.rejected hfits
      constructor
      case calls =>
        rw [hcharged.calls, hcharged.answers, List.length_append, hlength, h.calls]
      case calls_le => rw [hcharged.calls]; exact hcharged.calls_le
      case tokens_le =>
        rw [htokens', hcharged.answers, receivedTokens_attempt]
        omega
      case cost_le =>
        rw [hcost', hcharged.answers, receivedCost_attempt]
        omega
      case fits => rw [htokens', hcost']; exact h.fits

/-- One request keeps the budget exactly when it is within it. -/
theorem budgetKept_next_iff (h : run.Counted config) :
    BudgetKept config (BudgetedModelGateway.next config run turn) ↔
      BudgetKept config run ∧ turn.WithinBudget config run := by
  rcases @next_cases config run turn h.fits with ⟨hwithin, hsame⟩ | ⟨failures, last, hcharged⟩
  · have hiff : BudgetKept config (BudgetedModelGateway.next config run turn) ↔
        BudgetKept config run := by
      constructor
      · intro hkept
        exact ⟨hsame.answers ▸ hkept.calls, hsame.answers ▸ hsame.tokens ▸ hkept.tokens,
          hsame.answers ▸ hsame.cost ▸ hkept.cost, hsame.answers ▸ hkept.timely⟩
      · intro hkept
        refine ⟨?_, ?_, ?_, ?_⟩
        · rw [hsame.answers]; exact hkept.calls
        · rw [hsame.answers, hsame.tokens]; exact hkept.tokens
        · rw [hsame.answers, hsame.cost]; exact hkept.cost
        · rw [hsame.answers]; exact hkept.timely
    rw [hiff]
    exact (and_iff_left hwithin).symm
  · rw [hcharged.condition]
    have hcounted := @counted_next config run turn h
    have htokens := h.tokens_le
    have hcost := h.cost_le
    constructor
    · intro hkept
      have htimely := hkept.timely
      have hkepttokens := hkept.tokens
      have hkeptcost := hkept.cost
      rw [hcharged.answers] at htimely hkepttokens hkeptcost
      rw [timely_attempt] at htimely
      rw [receivedTokens_attempt] at hkepttokens
      rw [receivedCost_attempt] at hkeptcost
      -- what is rejected was paid for, and the totals stay behind
      have hfits : config.budget.Fits (run.state.totalTokens + last.tokens)
          (run.state.estimatedCostMicrounits + last.cost config.pricing) := by
        by_contra hover
        obtain ⟨htokens', hcost'⟩ := hcharged.rejected hover
        have hnotokens : last.tokens = 0 := by omega
        have hnocost : last.cost config.pricing = 0 := by omega
        rw [hnotokens, hnocost] at hover
        exact hover h.fits
      obtain ⟨htokens', hcost'⟩ := hcharged.accepted hfits
      have heqtokens : run.state.totalTokens = receivedTokens run.answers := by omega
      have heqcost :
          run.state.estimatedCostMicrounits = receivedCost config.pricing run.answers := by omega
      refine ⟨⟨?_, heqtokens, heqcost, htimely.1⟩, ?_, hfits⟩
      · rw [← h.calls]; exact h.calls_le
      · rw [heqtokens, heqcost]; exact htimely.2
    · rintro ⟨hkept, hbelow, hfits⟩
      obtain ⟨htokens', hcost'⟩ := hcharged.accepted hfits
      refine ⟨?_, ?_, ?_, ?_⟩
      · rw [← hcounted.calls]; exact hcounted.calls_le
      · rw [htokens', hcharged.answers, receivedTokens_attempt, hkept.tokens]
      · rw [hcost', hcharged.answers, receivedCost_attempt, hkept.cost]
      · rw [hcharged.answers, timely_attempt, ← hkept.tokens, ← hkept.cost]
        exact ⟨hkept.timely, hbelow⟩

/-! ## Concurrent requests -/

/-- A task that wakes up finds a call left. -/
def AsyncGatewayRun.Permits (config : GatewayConfig) (run : AsyncGatewayRun) :
    AsyncModelEvent → Prop
  | .woken task => ∀ requestDigest retryCount,
      run.tasks[task]? = some (.sleeping requestDigest retryCount) →
        run.state.calls < config.budget.maxCalls
  | _ => True

theorem settle_calls (requestDigest : String) (response : ModelResponse) (retryCount : ℕ)
    (state : GatewayState) :
    (config.settle requestDigest response retryCount state).2.calls = state.calls := by
  by_cases hfits : config.budget.Fits (state.totalTokens + response.usage.totalTokens)
      (state.estimatedCostMicrounits + config.pricing.estimateCost response)
  · rw [settle_of_fits requestDigest retryCount hfits]
    rfl
  · obtain ⟨error, hsettled⟩ := settle_of_not_fits requestDigest retryCount hfits
    rw [hsettled]

theorem resume_calls (requestDigest : String) (retryCount : ℕ) (answer : InnerEnd)
    (state : GatewayState) :
    (AsyncBudgetedModelGateway.resume config requestDigest retryCount answer state).2.calls =
      state.calls := by
  unfold AsyncBudgetedModelGateway.resume
  cases answer with
  | response response => exact settle_calls requestDigest response retryCount state
  | failed error => rfl
  | transient =>
      simp only
      split
      · rfl
      · split
        · rfl
        · rfl

/-- A request makes its first call only while one is left. -/
theorem begin_cases (request : ModelRequest) (run : AsyncGatewayRun) :
    ((AsyncBudgetedModelGateway.begin config request run).innerCalls = run.innerCalls ∧
      (AsyncBudgetedModelGateway.begin config request run).state.calls = run.state.calls) ∨
    (run.state.calls < config.budget.maxCalls ∧
      (AsyncBudgetedModelGateway.begin config request run).innerCalls = run.innerCalls + 1 ∧
      (AsyncBudgetedModelGateway.begin config request run).state.calls = run.state.calls + 1) := by
  unfold AsyncBudgetedModelGateway.begin
  cases config.requestDigest request with
  | error error => exact Or.inl ⟨rfl, rfl⟩
  | ok requestDigest =>
  simp only
  unfold GatewayConfig.fromCache
  cases run.state.cache requestDigest with
  | some cached => exact Or.inl ⟨rfl, rfl⟩
  | none =>
  simp only [Option.map_none]
  by_cases hcalls : config.budget.maxCalls ≤ run.state.calls
  · rw [if_pos hcalls]
    exact Or.inl ⟨rfl, rfl⟩
  · rw [if_neg hcalls]
    exact Or.inr ⟨not_le.mp hcalls, rfl, rfl⟩

/-- An event makes no call, or one that it permits exactly when one is left. -/
theorem async_next_cases (run : AsyncGatewayRun) (event : AsyncModelEvent) :
    (run.Permits config event ∧
      (AsyncBudgetedModelGateway.next config run event).innerCalls = run.innerCalls ∧
      (AsyncBudgetedModelGateway.next config run event).state.calls = run.state.calls) ∨
    ((run.Permits config event ↔ run.state.calls < config.budget.maxCalls) ∧
      (AsyncBudgetedModelGateway.next config run event).innerCalls = run.innerCalls + 1 ∧
      (AsyncBudgetedModelGateway.next config run event).state.calls = run.state.calls + 1) := by
  cases event with
  -- a new request checks the counter first
  | generate request =>
      rcases @begin_cases config request run with hsame | ⟨hcalls, hcounted⟩
      · exact Or.inl ⟨trivial, hsame⟩
      · exact Or.inr ⟨iff_of_true trivial hcalls, hcounted⟩
  | answered task answer =>
      refine Or.inl ⟨trivial, ?_⟩
      simp only [AsyncBudgetedModelGateway.next]
      split
      · exact ⟨rfl, resume_calls ..⟩
      · exact ⟨rfl, rfl⟩
  -- a retry calls again after its sleep, without a look at the counter
  | woken task =>
      simp only [AsyncBudgetedModelGateway.next, AsyncGatewayRun.Permits]
      split
      case h_1 requestDigest retryCount htask =>
        refine Or.inr ⟨⟨fun h => h requestDigest retryCount htask, fun h _ _ _ => h⟩, rfl, rfl⟩
      case h_2 hother =>
        exact Or.inl ⟨fun requestDigest retryCount htask =>
          absurd htask (hother requestDigest retryCount), rfl, rfl⟩
  | cancelled task error =>
      refine Or.inl ⟨trivial, ?_⟩
      simp only [AsyncBudgetedModelGateway.next]
      split <;> exact ⟨rfl, rfl⟩

end

/-! ## The guarantees -/

section

variable (config : GatewayConfig) (cache : String → Option ModelResponse)

/-- A gateway that has served no request. -/
def GatewayRun.start : GatewayRun := ⟨{ cache }, []⟩

def AsyncGatewayRun.start : AsyncGatewayRun := ⟨{ cache }, [], 0⟩

theorem counted_start : (GatewayRun.start cache).Counted config where
  calls := rfl
  calls_le := Nat.zero_le _
  tokens_le := Nat.le_refl _
  cost_le := Nat.le_refl _
  fits := ⟨Nat.zero_le _, fun _ _ => Nat.zero_le _⟩

theorem budgetKept_start : BudgetKept config (GatewayRun.start cache) where
  calls := Nat.zero_le _
  tokens := rfl
  cost := rfl
  timely before answer hbegins := by
    have hempty := List.prefix_nil.mp hbegins
    exact absurd hempty (List.append_ne_nil_of_right_ne_nil before (List.cons_ne_nil answer []))

end

/-- A gateway of ten tokens in the sample deployment. -/
def Sample.tenTokens : GatewayConfig where
  runtime := Sample.runtime
  budget := { maxCalls := 2, maxTotalTokens := 10 }
  cacheNamespace := "mock:planning-v1"

def Sample.planRequest (requestId : String) : ModelRequest where
  requestId
  messages := [⟨.user, "plan upgrade"⟩]
  responseSchemaName := "ChangePlan"
  responseSchema := []
  promptVersion := "planning-v1"
  knowledgeSnapshotDigest := "knowledge-v1"
  maxOutputTokens := 500

/-- A response that is longer than the budget allows. -/
def Sample.longResponse : ModelResponse where
  payload := []
  usage := ⟨10, 10, 20⟩
  model := "mock-model"
  latencyMs := 1
  finishReason := "stop"

theorem model_budget_is_kept (config : GatewayConfig) (cache : String → Option ModelResponse)
    (turns : List GatewayTurn) :
    BudgetKept config
        (Runs.run (BudgetedModelGateway.next config) (GatewayRun.start cache) turns) ↔
      Runs.Along (BudgetedModelGateway.next config)
        (fun run turn => turn.WithinBudget config run) (GatewayRun.start cache) turns := by
  refine @Runs.run_iff_along _ _ _ _ (GatewayRun.Counted config) (BudgetKept config) ?_ ?_ ?_ _ _
    (counted_start config cache) (budgetKept_start config cache)
  · exact fun run turn h => counted_next h
  · exact fun run turn h hkept => ((budgetKept_next_iff h).mp hkept).1
  · exact fun run turn h hkept => (budgetKept_next_iff h).trans (and_iff_right hkept)

theorem rejected_response_is_unpaid :
    ¬ ∀ (config : GatewayConfig) (cache : String → Option ModelResponse)
      (turns : List GatewayTurn), BudgetKept config
        (Runs.run (BudgetedModelGateway.next config) (GatewayRun.start cache) turns) := by
  intro h
  have hkept := h Sample.tenTokens (fun _ => none)
    [⟨Sample.planRequest "request-1", fun _ => .response Sample.longResponse⟩]
  exact absurd hkept.tokens (by decide)

theorem async_calls_are_bounded (config : GatewayConfig)
    (cache : String → Option ModelResponse) (events : List AsyncModelEvent) :
    (Runs.run (AsyncBudgetedModelGateway.next config) (AsyncGatewayRun.start cache)
        events).innerCalls ≤ config.budget.maxCalls ↔
      Runs.Along (AsyncBudgetedModelGateway.next config)
        (fun run event => run.Permits config event) (AsyncGatewayRun.start cache) events := by
  refine @Runs.run_iff_along AsyncGatewayRun AsyncModelEvent _ _
    (fun run => run.innerCalls = run.state.calls)
    (fun run => run.innerCalls ≤ config.budget.maxCalls) ?_ ?_ ?_ _ _ rfl (Nat.zero_le _)
  · intro run event h
    rcases @async_next_cases config run event with ⟨_, hcalls, hstate⟩ | ⟨_, hcalls, hstate⟩
    · rw [hcalls, hstate, h]
    · rw [hcalls, hstate, h]
  · intro run event _ hle
    rcases @async_next_cases config run event with ⟨_, hcalls, _⟩ | ⟨_, hcalls, _⟩
    · rwa [hcalls] at hle
    · rw [hcalls] at hle
      exact Nat.le_of_succ_le hle
  · intro run event h hle
    rcases @async_next_cases config run event with ⟨hpermits, hcalls, _⟩ | ⟨hpermits, hcalls, _⟩
    · rw [hcalls]
      exact iff_of_true hle hpermits
    · rw [hcalls, hpermits, h]
      exact Iff.rfl

/-- A task sleeps before its retry while another one makes the last call. -/
def Sample.overtaken : List AsyncModelEvent :=
  [.generate (Sample.planRequest "request-1"), .answered 0 .transient,
    .generate (Sample.planRequest "request-2"), .woken 0]

theorem retry_exceeds_calls :
    ¬ ∀ (config : GatewayConfig) (cache : String → Option ModelResponse)
      (events : List AsyncModelEvent),
      (Runs.run (AsyncBudgetedModelGateway.next config) (AsyncGatewayRun.start cache)
        events).innerCalls ≤ config.budget.maxCalls := by
  intro h
  have hcalls : (Runs.run (AsyncBudgetedModelGateway.next Sample.tenTokens)
      (AsyncGatewayRun.start fun _ => none) Sample.overtaken).innerCalls = 3 := rfl
  have hle := h Sample.tenTokens (fun _ => none) Sample.overtaken
  rw [hcalls] at hle
  exact absurd hle (by decide)

end ChangePilot
