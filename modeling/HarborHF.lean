import HarborHF.Async.Program
import HarborHF.Async.Pool
import HarborHF.Async.RelyGuarantee
import HarborHF.Async.Errors
import HarborHF.Async.Call
import HarborHF.Relational.Table
import HarborHF.Relational.Separators
import HarborHF.Numbers.Rounding
import HarborHF.Relational.Order
import HarborHF.Relational.Ties
import HarborHF.Control.Records
import HarborHF.Control.Encoding
import HarborHF.Control.Store
import HarborHF.Control.Projection
import HarborHF.Control.Queries
import HarborHF.Control.Ledger
import HarborHF.Control.Tables
import HarborHF.Control.World
import HarborHF.Control.Append
import HarborHF.Control.Service
import HarborHF.Control.Rules
import HarborHF.Control.Evaluation
import HarborHF.Control.Accounts
import HarborHF.Control.Submission
import HarborHF.Control.Reconciler
import HarborHF.Control.Api
import HarborHF.Control.Ceilings
import HarborHF.Control.Spending
import HarborHF.Control.Footprints
import HarborHF.Control.Fences
import HarborHF.Control.Scheduling
import HarborHF.Control.Cleanup
import HarborHF.Control.Admissions
import HarborHF.Control.Replay
import HarborHF.Control.History
import HarborHF.Control.Operators
import HarborHF.Control.Tasks
import HarborHF.Control.Interrupted
import HarborHF.Control.Jobs
import HarborHF.Control.Lifecycle
import HarborHF.Control.Handlers
import HarborHF.Control.Reconciliation
import HarborHF.Control.Requests
import HarborHF.Control.Runs
import HarborHF.Control.Terminal
import HarborHF.Control.Grace
import HarborHF.Control.Ties
import HarborHF.Control.Events
import HarborHF.Control.Delivery
import HarborHF.Relational.Dict
import HarborHF.Relational.Chunks
import HarborHF.Relational.Fold
import HarborHF.Campaign.Lock
import HarborHF.Campaign.Events
import HarborHF.Campaign.Recovery
import HarborHF.Campaign.WaveHistories
import HarborHF.Campaign.Merging
import HarborHF.Campaign.Projection
import HarborHF.Campaign.FailedCleanup
import HarborHF.Campaign.LateEvidence
import HarborHF.Async.Optimistic
import HarborHF.Campaign.Cancellation
import HarborHF.Campaign.Consistency
import HarborHF.Campaign.Reconciler
import HarborHF.Campaign.Admission
import HarborHF.Campaign.Apply
import HarborHF.Campaign.Exhaustion
import HarborHF.Campaign.Offers
import HarborHF.Campaign.Stalls
import HarborHF.Campaign.OperatorEvents
import HarborHF.Campaign.Extension
import HarborHF.Campaign.RetryRequests
import HarborHF.Campaign.OperatorRequests
import HarborHF.Campaign.ManualRecovery
import HarborHF.Campaign.StaleRequests
import HarborHF.Campaign.Records
import HarborHF.Campaign.Usage
import HarborHF.Campaign.Standing
import HarborHF.Campaign.Limits
import HarborHF.Campaign.Sweep
import HarborHF.Campaign.Replay
import HarborHF.Campaign.Decisions
import HarborHF.Campaign.Aggregation
import HarborHF.Async.Revisions
import HarborHF.Hub.Leases
import HarborHF.Relational.Ranking
import HarborHF.Hub.Catalog
import HarborHF.Hub.Republication
import HarborHF.Async.Crashes
import HarborHF.Worker.Evidence
import HarborHF.Worker.Publication
import HarborHF.Worker.Executions
import HarborHF.Worker.CrashAtomic
import HarborHF.Relational.Replacement
import HarborHF.Relational.Annotated
import HarborHF.Relational.Renaming
import HarborHF.Worker.Redaction
import HarborHF.Providers.EvidenceProxy
import HarborHF.Providers.JudgeEvidence
import HarborHF.Providers.JudgeRecorder
import HarborHF.Providers.AttemptBudget
import HarborHF.Async.Settling
import HarborHF.Controllers.Launch
import HarborHF.Controllers.SingleJob
import HarborHF.Controllers.World
import HarborHF.Controllers.Supervision
import HarborHF.Controllers.Passes
import HarborHF.Controllers.DeadRecovery
import HarborHF.Controllers.ProviderCapacity
import HarborHF.Controllers.Programs
import HarborHF.Endpoints.Provisioning
import HarborHF.Endpoints.CreatedEndpoints
import HarborHF.Prepared.ImageLocks
import HarborHF.Prepared.SandboxPolicies
import HarborHF.Json.Values
import HarborHF.Json.Text
import HarborHF.Contracts.CanonicalJson
import HarborHF.Encodings.Octets
import HarborHF.Control.Capability
import HarborHF.Relational.PathOrder
import HarborHF.Trials.FileLists
import HarborHF.Results.Composition
import HarborHF.Results.Selection
import HarborHF.Results.Scores
import HarborHF.Worker.DirectRun
import HarborHF.Worker.DirectCrashes
import HarborHF.Relational.Elimination
import HarborHF.Relational.Traversals
import HarborHF.Trials.Workspace
import HarborHF.Trials.SymlinkGraph
import HarborHF.Json.Dumps
import HarborHF.Worker.Scrubbing
import HarborHF.Providers.FirstToken
import HarborHF.Controllers.WaveAdmission
import HarborHF.Benchmarks.Bundle
import HarborHF.Benchmarks.Staging
import HarborHF.Encodings.Pairs
import HarborHF.Benchmarks.StagedBundles
import HarborHF.Encodings.CodePoints
import HarborHF.Encodings.ConfigFile
import HarborHF.Tokens.TokenStore
import HarborHF.Tokens.TokenRuns
import HarborHF.Encodings.RootedUrl
import HarborHF.Sessions.ReturnPath
import HarborHF.Numbers.Bisection
import HarborHF.Artifacts.Rejections
