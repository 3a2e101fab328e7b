import ChangePilot.Guarantees.Answers
import ChangePilot.Guarantees.ApprovalGate
import ChangePilot.Guarantees.Atomicity
import ChangePilot.Guarantees.Attempts
import ChangePilot.Guarantees.Attribution
import ChangePilot.Guarantees.AuditLog
import ChangePilot.Guarantees.ChunkIds
import ChangePilot.Guarantees.Chunking
import ChangePilot.Guarantees.Compensation
import ChangePilot.Guarantees.Completion
import ChangePilot.Guarantees.Contents
import ChangePilot.Guarantees.Decisions
import ChangePilot.Guarantees.Definitions
import ChangePilot.Guarantees.Deployments
import ChangePilot.Guarantees.Dispatch
import ChangePilot.Guarantees.Errors
import ChangePilot.Guarantees.EventStream
import ChangePilot.Guarantees.Evidence
import ChangePilot.Guarantees.Failure
import ChangePilot.Guarantees.Histories
import ChangePilot.Guarantees.Ingestion
import ChangePilot.Guarantees.Keys
import ChangePilot.Guarantees.Migration
import ChangePilot.Guarantees.ModelBudget
import ChangePilot.Guarantees.OnlineEvaluation
import ChangePilot.Guarantees.Outcomes
import ChangePilot.Guarantees.PlanWorkflow
import ChangePilot.Guarantees.PlannedApprovals
import ChangePilot.Guarantees.Planning
import ChangePilot.Guarantees.Preparation
import ChangePilot.Guarantees.Progress
import ChangePilot.Guarantees.PullRequests
import ChangePilot.Guarantees.Recovery
import ChangePilot.Guarantees.RecoveryDecisions
import ChangePilot.Guarantees.Redaction
import ChangePilot.Guarantees.Rejection
import ChangePilot.Guarantees.Reloading
import ChangePilot.Guarantees.RepeatedRecovery
import ChangePilot.Guarantees.Retries
import ChangePilot.Guarantees.Scheduling
import ChangePilot.Guarantees.SchemaChanges
import ChangePilot.Guarantees.Secrets
import ChangePilot.Guarantees.Snapshots
import ChangePilot.Guarantees.StoredArguments
import ChangePilot.Guarantees.Stores
import ChangePilot.Guarantees.ToolCalling
import ChangePilot.Guarantees.Undisturbed
import ChangePilot.Guarantees.Unknowns
import ChangePilot.Guarantees.Validation
import ChangePilot.Library.Hazards
import ChangePilot.Library.SqlHazards
import ChangePilot.Persistence.Definitions
import ChangePilot.Persistence.RoundTrip
import ChangePilot.Ports.StrictModels
import ChangePilot.Sandbox.Calls
import ChangePilot.Sandbox.Manager
import ChangePilot.Sandbox.Rules
import ChangePilot.Sandbox.Tools
