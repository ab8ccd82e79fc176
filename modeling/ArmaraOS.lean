import ArmaraOS.Agent.AinlDischarge
import ArmaraOS.Agent.AinlObligations
import ArmaraOS.Agent.Compactor
import ArmaraOS.Agent.ContextGuard
import ArmaraOS.Agent.DirectiveTags
import ArmaraOS.Agent.HistoryTrimming
import ArmaraOS.Agent.McpDispatch
import ArmaraOS.Agent.OverflowRecovery
import ArmaraOS.Agent.RecoveredCalls
import ArmaraOS.Agent.Refinement
import ArmaraOS.Agent.RepeatedCalls
import ArmaraOS.Agent.ReplyDirectives
import ArmaraOS.Agent.RequestPairing
import ArmaraOS.Agent.SideEffects
import ArmaraOS.Agent.StreamedAttempts
import ArmaraOS.Agent.StrictRun
import ArmaraOS.Agent.TextToolCalls
import ArmaraOS.Agent.ToolGate
import ArmaraOS.Agent.Usage
import ArmaraOS.Api.StreamChunker
import ArmaraOS.Drivers.Contract
import ArmaraOS.Drivers.GeminiRequest
import ArmaraOS.Drivers.GeminiResponse
import ArmaraOS.Drivers.OpenAiRequest
import ArmaraOS.Drivers.StreamedAnswer
import ArmaraOS.Drivers.ThinkTags
import ArmaraOS.Kernel.AgentCalls
import ArmaraOS.Kernel.AgentLineage
import ArmaraOS.Kernel.AgentPools
import ArmaraOS.Kernel.AgentRegistry
import ArmaraOS.Kernel.AgentSpawn
import ArmaraOS.Kernel.Approval
import ArmaraOS.Kernel.Background
import ArmaraOS.Kernel.CanonicalTurns
import ArmaraOS.Kernel.ConfigRepair
import ArmaraOS.Kernel.CronNextMatch
import ArmaraOS.Kernel.DelegatePrefilter
import ArmaraOS.Kernel.ExecPolicies
import ArmaraOS.Kernel.HandMigration
import ArmaraOS.Kernel.HandOut
import ArmaraOS.Kernel.HandTags
import ArmaraOS.Kernel.Hands
import ArmaraOS.Kernel.JobCaps
import ArmaraOS.Kernel.Manifest
import ArmaraOS.Kernel.Pairing
import ArmaraOS.Kernel.Restart
import ArmaraOS.Kernel.SessionTurns
import ArmaraOS.Kernel.SpawnCaps
import ArmaraOS.Kernel.SpawnFailures
import ArmaraOS.Kernel.SpawnLimits
import ArmaraOS.Kernel.Triggers
import ArmaraOS.Kernel.WorkflowCollects
import ArmaraOS.Kernel.WorkflowRetention
import ArmaraOS.Kernel.WorkflowRuns
import ArmaraOS.Kernel.WorkflowVariables
import ArmaraOS.Kernel.WorkflowVotes
import ArmaraOS.Learning.Fingerprints
import ArmaraOS.Learning.Procedures
import ArmaraOS.Learning.ProposalLedger
import ArmaraOS.Learning.TurnTrajectory
import ArmaraOS.Lib.Acyclic
import ArmaraOS.Lib.Backlog
import ArmaraOS.Lib.BreadthFirst
import ArmaraOS.Lib.ByteSlices
import ArmaraOS.Lib.Excision
import ArmaraOS.Lib.Fallible
import ArmaraOS.Lib.Fields
import ArmaraOS.Lib.FileTree
import ArmaraOS.Lib.FirstSeen
import ArmaraOS.Lib.LineCount
import ArmaraOS.Lib.Lines
import ArmaraOS.Lib.Lowercase
import ArmaraOS.Lib.Marks
import ArmaraOS.Lib.Overlap
import ArmaraOS.Lib.Placeholders
import ArmaraOS.Lib.Shrinking
import ArmaraOS.Lib.Slots
import ArmaraOS.Lib.Spans
import ArmaraOS.Lib.Splice
import ArmaraOS.Lib.StableSort
import ArmaraOS.Lib.Waves
import ArmaraOS.Lib.Wildcard
import ArmaraOS.Memory.AgentRecall
import ArmaraOS.Memory.FailedWrites
import ArmaraOS.Memory.GraphRewrite
import ArmaraOS.Memory.GraphSnapshots
import ArmaraOS.Memory.GraphWalks
import ArmaraOS.Memory.ProcedureArtifacts
import ArmaraOS.Memory.ReuseOutcomes
import ArmaraOS.Memory.TaskQueue
import ArmaraOS.Runtime.ApplyHunks
import ArmaraOS.Runtime.Cooldown
import ArmaraOS.Runtime.Coordination
import ArmaraOS.Runtime.EscapedText
import ArmaraOS.Runtime.FilePlaceholders
import ArmaraOS.Runtime.PatchFrame
import ArmaraOS.Runtime.PatchRoundTrip
import ArmaraOS.Runtime.PlanExecutor
import ArmaraOS.Runtime.PlanRuns
import ArmaraOS.Runtime.ProcessManager
import ArmaraOS.Runtime.ShellExec
import ArmaraOS.Runtime.ThinkFilter
import ArmaraOS.Runtime.WebWrapper
import ArmaraOS.Security.AuditRestarts
import ArmaraOS.Security.HostFunctions
import ArmaraOS.Security.Inheritance
import ArmaraOS.Security.SessionAuth
import ArmaraOS.Security.ToolPolicy
import ArmaraOS.Security.WorkspaceSandbox
import ArmaraOS.Session.Conservation
import ArmaraOS.Session.HeartbeatPairing
import ArmaraOS.Session.NormalForm
import ArmaraOS.Session.ToolResults
import ArmaraOS.Wire.Authentication
import ArmaraOS.Wire.Broadcast
import ArmaraOS.Wire.Connections
import ArmaraOS.Wire.Credentials
import ArmaraOS.Wire.Frames
