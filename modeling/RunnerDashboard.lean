import RunnerDashboard.Lib.Path
import RunnerDashboard.Lib.Table
import RunnerDashboard.Lib.Json
import RunnerDashboard.Lib.Register
import RunnerDashboard.Lib.Tenure
import RunnerDashboard.Lib.PyStr
import RunnerDashboard.Staff.Idempotency
import RunnerDashboard.Staff.IdempotencyRuns
import RunnerDashboard.Staff.Dispatch
import RunnerDashboard.RunnerLease.Store
import RunnerDashboard.RunnerLease.Processes
import RunnerDashboard.RunnerLease.Sqlite
import RunnerDashboard.RunnerLease.Equivalence
import RunnerDashboard.RunnerLease.Fencing
import RunnerDashboard.RunnerLease.Migration
import RunnerDashboard.RunnerLease.MigrationRuns
import RunnerDashboard.Barb.Outbox
import RunnerDashboard.Barb.OutboxRuns
import RunnerDashboard.Barb.Conversation
import RunnerDashboard.Barb.Versions
import RunnerDashboard.Barb.Fence
import RunnerDashboard.Barb.Store
import RunnerDashboard.Barb.Card
import RunnerDashboard.Barb.Convergence
import RunnerDashboard.Barb.FenceRuns
import RunnerDashboard.Barb.PruneRuns
import RunnerDashboard.Barb.RunLink
import RunnerDashboard.Barb.Delivery
import RunnerDashboard.Barb.Lease
import RunnerDashboard.Barb.LeaseRuns
import RunnerDashboard.Barb.TurnoverRuns
import RunnerDashboard.Barb.NodeLeader
import RunnerDashboard.Barb.NodeLeaderRuns
import RunnerDashboard.Staff.PersonaLease
import RunnerDashboard.Staff.SpoolEpochs
import RunnerDashboard.Staff.SpoolRuns
import RunnerDashboard.Staff.Proposals
import RunnerDashboard.Staff.ProposalRuns
import RunnerDashboard.Staff.ProposalFence
import RunnerDashboard.Staff.Scheduler
import RunnerDashboard.Staff.SchedulerTick
import RunnerDashboard.Staff.SchedulerLeader
import RunnerDashboard.Staff.ScheduledRuns
import RunnerDashboard.Staff.Capacity
import RunnerDashboard.Staff.CapacityRuns
import RunnerDashboard.Lib.IsoTime
import RunnerDashboard.Staff.CapacityBudget
import RunnerDashboard.ArmCap.Store
import RunnerDashboard.ArmCap.Runs
import RunnerDashboard.AgentBus.Store
import RunnerDashboard.AgentBus.SendRuns
import RunnerDashboard.AgentBus.MirrorRuns
import RunnerDashboard.Lib.Height
import RunnerDashboard.Staff.Retry
import RunnerDashboard.Staff.RetryRuns
import RunnerDashboard.Lib.Regex
import RunnerDashboard.CodeRequests.Model
import RunnerDashboard.CodeRequests.Lifecycle
import RunnerDashboard.CodeRequests.Store
import RunnerDashboard.CodeRequests.TransitionRuns
import RunnerDashboard.CodeRequests.IssueText
import RunnerDashboard.CodeRequests.Rebuild
import RunnerDashboard.CodeRequests.Outage
import RunnerDashboard.Lib.Waves
import RunnerDashboard.CodeRequests.PlanFiling
import RunnerDashboard.CodeRequests.PlanFilingRuns
import RunnerDashboard.CodeRequests.ExecutorStage
import RunnerDashboard.CodeRequests.ExecutorSteps
import RunnerDashboard.CodeRequests.ExecutorRuns
import RunnerDashboard.CodeRequests.ExecutorProgress
import RunnerDashboard.Memory.Store
import RunnerDashboard.Memory.AppendRuns
import RunnerDashboard.Memory.Lessons
import RunnerDashboard.Memory.ReviewRuns
import RunnerDashboard.Lib.Sweep
import RunnerDashboard.Lib.Attempt
import RunnerDashboard.Library.Ingest
import RunnerDashboard.Library.Records
import RunnerDashboard.Library.Convergence
import RunnerDashboard.Deploy.CheckRuns
import RunnerDashboard.Deploy.Releases
import RunnerDashboard.Deploy.ReleaseMatch
import RunnerDashboard.Deploy.Cycle
import RunnerDashboard.Deploy.StateCopy
import RunnerDashboard.Deploy.Transaction
import RunnerDashboard.Deploy.TransactionSteps
import RunnerDashboard.Deploy.TransactionRuns
import RunnerDashboard.Threads.Store
import RunnerDashboard.Threads.Runs
import RunnerDashboard.Threads.LoopGuard
import RunnerDashboard.Threads.Replay
import RunnerDashboard.Threads.AddMessage
import RunnerDashboard.Schedule.Cron
import RunnerDashboard.Schedule.CronMeaning
import RunnerDashboard.Schedule.NextFire
import RunnerDashboard.Lib.Base64
import RunnerDashboard.Lib.Keyset
import RunnerDashboard.Staff.Pagination
import RunnerDashboard.Staff.RunPages
import RunnerDashboard.Staff.Approval
import RunnerDashboard.Staff.Execution
import RunnerDashboard.Priorities.Directives
import RunnerDashboard.Priorities.DirectiveRuns
import RunnerDashboard.RmSync.Porcelain
import RunnerDashboard.RmSync.Pathspec
import RunnerDashboard.RmSync.Quarantine
import RunnerDashboard.WorkItems.Store
import RunnerDashboard.WorkItems.ActivePages
import RunnerDashboard.WorkItems.RunLink
import RunnerDashboard.Lib.Budget
import RunnerDashboard.Staff.RateLimit
import RunnerDashboard.ArmCap.Disarm
import RunnerDashboard.Coordination.BoardCache
import RunnerDashboard.Coordination.BoardReplay
import RunnerDashboard.Coordination.Postman
import RunnerDashboard.Coordination.PostmanRuns
import RunnerDashboard.Dispatch.ReplayStore
import RunnerDashboard.Dispatch.Signing
import RunnerDashboard.Dispatch.Envelope
import RunnerDashboard.PrivateMode.Transcripts
import RunnerDashboard.PrivateMode.TranscriptRuns
import RunnerDashboard.CiFix.Locks
import RunnerDashboard.Escalation.Cap
import RunnerDashboard.Quota.Spend
import RunnerDashboard.Barb.TaskInventory
import RunnerDashboard.CodeRequests.BoardGate
import RunnerDashboard.CodeRequests.ExecutorTiers
import RunnerDashboard.Coordination.JobFenceRuns
import RunnerDashboard.Cordon.Plan
import RunnerDashboard.Cordon.Runs
import RunnerDashboard.Lib.Asking
import RunnerDashboard.Lib.Seek
import RunnerDashboard.Memory.Reads
import RunnerDashboard.PrivateMode.EditedMetadata
import RunnerDashboard.PrivateMode.ExpiredThreads
import RunnerDashboard.RunnerScheduler.StopSafely
import RunnerDashboard.RunnerScheduler.Tick
import RunnerDashboard.RunnerScheduler.TickRuns
import RunnerDashboard.Deploy.GreenRuns
import RunnerDashboard.Deploy.Inventory
import RunnerDashboard.Deploy.InventoryPages
import RunnerDashboard.Deploy.Retention
import RunnerDashboard.Deploy.TerminalVerdict
import RunnerDashboard.Dispatch.HourlyQuota
import RunnerDashboard.Lib.Fences
import RunnerDashboard.Lib.Lines
import RunnerDashboard.Staff.CapsuleAgreement
import RunnerDashboard.Lib.Marks
import RunnerDashboard.Staff.PrivateSpans
import RunnerDashboard.RunnerScheduler.Main
import RunnerDashboard.RunnerScheduler.PreviewRuns
import RunnerDashboard.QueueCleanup.DeadWork
import RunnerDashboard.Autoscaler.LeasedRunners
import RunnerDashboard.CiFix.Audit
import RunnerDashboard.Lib.Tail
import RunnerDashboard.Staff.RunEvents
import RunnerDashboard.BotBuilder.LedgerRuns
