import ChangePilot.Library.Statements
import ChangePilot.Planning.Graph
import Mathlib.Data.List.MinMax
import Mathlib.Data.PNat.Basic

/-!
# Planning sessions

A session is a request with the results of the planning runs on it and the plans among
them.  Two repositories keep sessions, one in memory and one in a database.  What they
have in common is the session, and each of their operations is one on sessions.
-/

namespace ChangePilot

/-- What a planning service asks of its repository.  A call that writes either raises,
which leaves the state, or gives the next one. -/
structure PlanningRepository (ρ : Type) where
  createSession : ρ → String → ChangeRequest → Except PlanningError ρ
  getRequest : ρ → String → Except PlanningError ChangeRequest
  updateRequest : ρ → String → ChangeRequest → Except PlanningError ρ
  nextAttemptNumber : ρ → String → Except PlanningError ℕ
  nextPlanVersion : ρ → String → Except PlanningError ℕ+
  saveAttempt : ρ → String → (attemptNo : ℕ) → ChangeRequest → PlanningResult →
    Except PlanningError ρ
  savePlan : ρ → String → ChangePlan → Except PlanningError ρ
  getLatestPlan : ρ → String → Except PlanningError ChangePlan
  getLatestResult : ρ → String → Except PlanningError PlanningResult
  bindPreparedWorkflow : ρ → String → PreparedWorkflow → Except PlanningError ρ

def unknownSession (sessionId : String) : PlanningError :=
  .lookupError s!"unknown planning session '{sessionId}'"

/-! ## In memory -/

structure MemorySession where
  sessionId : String
  request : ChangeRequest
  attempts : List PlanningResult := []
  plans : List ChangePlan := []
  prepared : Option PreparedWorkflow := none

structure InMemoryPlanningRepository where
  sessions : KeyedTable MemorySession.sessionId := .empty

namespace InMemoryPlanningRepository

variable (s : InMemoryPlanningRepository) (sessionId : String)

/-- `_get` -/
def find : Except PlanningError MemorySession :=
  match s.sessions.get sessionId with
  | some session => .ok session
  | none => .error (unknownSession sessionId)

def createSession (request : ChangeRequest) : Except PlanningError InMemoryPlanningRepository :=
  if (s.sessions.get sessionId).isSome then
    .error (.valueError s!"duplicate planning session '{sessionId}'")
  else .ok ⟨s.sessions.put { sessionId := sessionId, request := request }⟩

def updateRequest (request : ChangeRequest) :
    Except PlanningError InMemoryPlanningRepository := do
  let session ← s.find sessionId
  return ⟨s.sessions.put { session with request := request }⟩

def saveAttempt (attemptNo : ℕ) (request : ChangeRequest) (result : PlanningResult) :
    Except PlanningError InMemoryPlanningRepository := do
  let session ← s.find sessionId
  if attemptNo ≠ session.attempts.length + 1 then
    throw (.valueError "planning attempt number is not sequential")
  return ⟨s.sessions.put { session with
    request := request, attempts := session.attempts ++ [result] }⟩

def savePlan (plan : ChangePlan) : Except PlanningError InMemoryPlanningRepository := do
  let session ← s.find sessionId
  if plan.version ≠ session.plans.length + 1 then
    throw (.valueError "plan version is not sequential")
  return ⟨s.sessions.put { session with plans := session.plans ++ [plan] }⟩

/-- `values[-1]`, of a list that is not empty. -/
def last {α : Type} (message : String) (values : List α) : Except PlanningError α :=
  match values.getLast? with
  | some value => .ok value
  | none => .error (.lookupError message)

def bindPreparedWorkflow (prepared : PreparedWorkflow) :
    Except PlanningError InMemoryPlanningRepository := do
  let session ← s.find sessionId
  return ⟨s.sessions.put { session with prepared := some prepared }⟩

/-- The repository as the planning service uses it. -/
def repository : PlanningRepository InMemoryPlanningRepository where
  createSession := createSession
  getRequest s sessionId := (s.find sessionId).map MemorySession.request
  updateRequest := updateRequest
  nextAttemptNumber s sessionId := (s.find sessionId).map fun session =>
    session.attempts.length + 1
  nextPlanVersion s sessionId := (s.find sessionId).map fun session =>
    session.plans.length.succPNat
  saveAttempt := saveAttempt
  savePlan := savePlan
  getLatestPlan s sessionId := do
    last "planning session has no plan" (← s.find sessionId).plans
  getLatestResult s sessionId := do
    last "planning session has no attempts" (← s.find sessionId).attempts
  bindPreparedWorkflow := bindPreparedWorkflow

end InMemoryPlanningRepository

/-! ## SQLite -/

/-- A row of `planning_sessions`, but for its timestamps. -/
structure SessionRow where
  sessionId : String
  request : ChangeRequest
  status : String
  latestPlanVersion : ℕ

/-- A row of `planning_attempts`, but for its timestamp. -/
structure AttemptRow where
  sessionId : String
  attemptNo : ℕ
  input : ChangeRequest
  result : PlanningResult

def AttemptRow.key (row : AttemptRow) : String ×ₗ ℕ := toLex (row.sessionId, row.attemptNo)

/-- A row of `planning_plans`, but for its timestamp and for the digests that are never
read. -/
structure PlanRow where
  planId : String
  version : ℕ
  sessionId : String
  status : String
  plan : ChangePlan
  definition : Option (String × ℕ × String) := none

def PlanRow.key (row : PlanRow) : String ×ₗ ℕ := toLex (row.planId, row.version)

def PlanningResult.kind : PlanningResult → String
  | clarificationRequired _ _ => "clarification_required"
  | planReady _ _ _ => "plan_ready"
  | planningRejected _ _ => "planning_rejected"
  | budgetExhausted _ _ _ => "budget_exhausted"

/-- What `model_validate_json` makes of the texts that `model_dump_json` has written of
results and plans.  The columns hold the models in the place of their texts; a request,
which is made of texts only, comes back as it was. -/
structure JsonColumns where
  result : PlanningResult → Except PlanningError PlanningResult
  plan : ChangePlan → Except PlanningError ChangePlan

structure SQLitePlanningRepository where
  sessions : KeyedTable SessionRow.sessionId := .empty
  attempts : KeyedTable AttemptRow.key := .empty
  plans : KeyedTable PlanRow.key := .empty

namespace SQLitePlanningRepository

variable (s : SQLitePlanningRepository) (sessionId : String)

/-- The update of the row of a session, if there is one. -/
def updateSession (change : SessionRow → SessionRow) : KeyedTable SessionRow.sessionId :=
  match s.sessions.get sessionId with
  | some row => s.sessions.put (change row)
  | none => s.sessions

def createSession (request : ChangeRequest) : Except PlanningError SQLitePlanningRepository :=
  if (s.sessions.get sessionId).isSome then .error (.integrityError "pk_planning_sessions")
  else .ok { s with sessions := s.sessions.put {
    sessionId := sessionId, request := request, status := "planning", latestPlanVersion := 0 } }

def updateRequest (request : ChangeRequest) : Except PlanningError SQLitePlanningRepository :=
  if (s.sessions.get sessionId).isSome then
    .ok { s with sessions := s.updateSession sessionId fun row =>
      { row with request := request, status := "planning" } }
  else .error (unknownSession sessionId)

/-- The attempts of a session. -/
def attemptsOf : List AttemptRow := s.attempts.rows.filter fun row => row.sessionId = sessionId

/-- The plans of a session. -/
def plansOf : List PlanRow := s.plans.rows.filter fun row => row.sessionId = sessionId

/-- `ORDER BY attempt_no DESC LIMIT 1` -/
def latestAttempt : Option AttemptRow := (s.attemptsOf sessionId).argmax AttemptRow.attemptNo

/-- `ORDER BY version DESC LIMIT 1` -/
def latestPlan : Option PlanRow := (s.plansOf sessionId).argmax PlanRow.version

def nextPlanVersion : Except PlanningError ℕ+ :=
  match s.sessions.get sessionId with
  | some row => .ok row.latestPlanVersion.succPNat
  | none => .error (unknownSession sessionId)

def saveAttempt (attemptNo : ℕ) (request : ChangeRequest) (result : PlanningResult) :
    Except PlanningError SQLitePlanningRepository := do
  let row : AttemptRow := {
    sessionId := sessionId, attemptNo := attemptNo, input := request, result := result }
  if (s.attempts.get row.key).isSome then throw (.integrityError "pk_planning_attempts")
  if (s.sessions.get sessionId).isNone then
    throw (.integrityError "fk_planning_attempts_session")
  return { s with
    attempts := s.attempts.put row
    sessions := s.updateSession sessionId fun row =>
      { row with request := request, status := result.kind } }

/-- The row, superseded if it is a ready one of the session. -/
def supersede (row : PlanRow) : PlanRow :=
  if row.sessionId = sessionId ∧ row.status = "ready" then { row with status := "superseded" }
  else row

theorem key_supersede (row : PlanRow) : (supersede sessionId row).key = row.key := by
  unfold supersede
  split <;> rfl

def savePlan (plan : ChangePlan) : Except PlanningError SQLitePlanningRepository := do
  let row : PlanRow := {
    planId := plan.planId, version := plan.version, sessionId := sessionId
    status := "ready", plan := plan }
  if (s.plans.get row.key).isSome then throw (.integrityError "pk_planning_plans")
  if (s.sessions.get sessionId).isNone then throw (.integrityError "fk_planning_plans_session")
  return { s with
    plans := (s.plans.mapRows (supersede sessionId) (key_supersede sessionId)).put row
    sessions := s.updateSession sessionId fun row =>
      { row with latestPlanVersion := plan.version, status := "plan_ready" } }

def bindPreparedWorkflow (prepared : PreparedWorkflow) :
    Except PlanningError SQLitePlanningRepository :=
  match (s.plans.get (toLex (prepared.planId, prepared.planVersion))).filter fun row =>
      row.sessionId = sessionId with
  | some row => .ok { s with plans := s.plans.put { row with
      definition := some (prepared.definitionId, prepared.definitionVersion,
        prepared.definitionDigest)
      status := "prepared" } }
  | none => .error (.lookupError "latest plan cannot be bound")

variable (columns : JsonColumns)

/-- The repository as the planning service uses it. -/
def repository : PlanningRepository SQLitePlanningRepository where
  createSession := createSession
  getRequest s sessionId :=
    match s.sessions.get sessionId with
    | some row => .ok row.request
    | none => .error (unknownSession sessionId)
  updateRequest := updateRequest
  nextAttemptNumber s sessionId := .ok ((s.latestAttempt sessionId).elim 0 AttemptRow.attemptNo + 1)
  nextPlanVersion := nextPlanVersion
  saveAttempt := saveAttempt
  savePlan := savePlan
  getLatestPlan s sessionId :=
    match s.latestPlan sessionId with
    | some row => columns.plan row.plan
    | none => .error (.lookupError "planning session has no plan")
  getLatestResult s sessionId :=
    match s.latestAttempt sessionId with
    | some row => columns.result row.result
    | none => .error (.lookupError "planning session has no attempts")
  bindPreparedWorkflow := bindPreparedWorkflow

end SQLitePlanningRepository

end ChangePilot
