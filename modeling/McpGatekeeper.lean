import McpGatekeeper.Audit
import McpGatekeeper.Approvals
import McpGatekeeper.Interleaving.Soundness
import McpGatekeeper.Registry
import McpGatekeeper.Operations
import McpGatekeeper.Gateway
import McpGatekeeper.Interleaving.Deeds
import McpGatekeeper.Interleaving.Strengthening
import McpGatekeeper.System
import McpGatekeeper.AuditTrail
import McpGatekeeper.Authorisation
import McpGatekeeper.Deadlines
import McpGatekeeper.DecisionOfRecord
import McpGatekeeper.Interleaving.Lockstep
import McpGatekeeper.Redaction
import McpGatekeeper.WriteOnce
import McpGatekeeper.Actors
import McpGatekeeper.Aggregation
import McpGatekeeper.Attribution
import McpGatekeeper.Database
import McpGatekeeper.Export
import McpGatekeeper.OnRecord
import McpGatekeeper.Outcomes
import McpGatekeeper.PolicyCompilation
import McpGatekeeper.Refresh
import McpGatekeeper.Refusals
import McpGatekeeper.AuditView
import McpGatekeeper.GlobLanguage
import McpGatekeeper.InformationOrder
import McpGatekeeper.JsonPaths
import McpGatekeeper.Namespacing
import McpGatekeeper.RedactionDepth
import McpGatekeeper.RedactionLevels
import McpGatekeeper.Sweeps
import McpGatekeeper.Wakeups
import McpGatekeeper.Calendar
import McpGatekeeper.Timeouts
import McpGatekeeper.Interleaving.View
import McpGatekeeper.JsonText
import McpGatekeeper.OnDisk
import McpGatekeeper.JsonLines
import McpGatekeeper.Replies
import McpGatekeeper.Restarts
import McpGatekeeper.Routing
import McpGatekeeper.Server
import McpGatekeeper.OnConnection
import McpGatekeeper.PatternCache
import McpGatekeeper.Promptness
import McpGatekeeper.Reasons
import McpGatekeeper.AuditPage
import McpGatekeeper.HeldCalls
import McpGatekeeper.RedactionMerge
import McpGatekeeper.ToolLists
import McpGatekeeper.ConfigReading
