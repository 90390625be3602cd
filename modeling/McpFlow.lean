import McpFlow.Mrtr.Protocol
import McpFlow.Execution.Steps
import McpFlow.Execution.RecoveryUnknown
import McpFlow.Mcp.Certainty
import McpFlow.Events.Completeness
import McpFlow.Planner.Laws
import McpFlow.Workflow.Executable
import McpFlow.Factory.Activation
import McpFlow.Factory.Agreement
import McpFlow.Factory.Publish
import McpFlow.Execution.LocalStep
import McpFlow.Execution.LocalFixpoint
import McpFlow.Execution.Transactions
import McpFlow.Execution.Budget
import McpFlow.Execution.Parallelism
import McpFlow.Execution.RecoveryAgreement
import McpFlow.Library.Digits
import McpFlow.Library.Keyset
import McpFlow.Library.Pieces
import McpFlow.Library.Recurrence
import McpFlow.Scheduler.Recurrence
import McpFlow.Outbox.RelayLaw
import McpFlow.Execution.SecretRedaction
import McpFlow.Scheduler.NextPoint
import McpFlow.Scheduler.Rows
import McpFlow.Scheduler.Runtime
import McpFlow.Scheduler.World
import McpFlow.Scheduler.Fire
import McpFlow.Scheduler.DuePoints
import McpFlow.Scheduler.Completed
import McpFlow.Scheduler.Coverage
import McpFlow.Scheduler.Overlap
import McpFlow.Scheduler.OverlapPasses
import McpFlow.Scheduler.Exclusion
import McpFlow.Bindings.Pointer
import McpFlow.Bindings.Value
import McpFlow.Bindings.Predicate
import McpFlow.Bindings.PredicateLaws
import McpFlow.Execution.ExpiredRunning
import McpFlow.Execution.WhileHistory
import McpFlow.Execution.CompletionLaw
import McpFlow.Execution.DagValidation
import McpFlow.Execution.WaveSettlement
import McpFlow.Execution.Ended
import McpFlow.Execution.Fencing
import McpFlow.Scheduler.Tracking
import McpFlow.Factory.RuntimeAdapter
import McpFlow.Factory.Transport
import McpFlow.Factory.Containment
import McpFlow.Mcp.Discovery
import McpFlow.Mcp.Convergence
import McpFlow.Agent.EntityAlignment
import McpFlow.Agent.AlignmentLaw
import McpFlow.Library.JsonOrder
import McpFlow.Audit.Sanitize
import McpFlow.Audit.Snapshot
import McpFlow.Library.IsoTime
import McpFlow.Audit.Integrity
import McpFlow.Audit.Ledger
import McpFlow.Factory.RefResolver
import McpFlow.Factory.SchemaContract
import McpFlow.Factory.Normalized
import McpFlow.Creation.World
import McpFlow.Creation.Steps
import McpFlow.Creation.Requests
import McpFlow.Creation.Idempotency
import McpFlow.Execution.Lifecycle
import McpFlow.Execution.LeaseLaws
import McpFlow.Approval.Requests
import McpFlow.Approval.Voting
import McpFlow.Approval.Quorum
import McpFlow.Approval.ResumeOutbox
import McpFlow.Execution.Pinned
import McpFlow.Library.Ballot
