import OpenAgent.Capabilities.References
import OpenAgent.Runtime.Drains
import OpenAgent.Runtime.Once
import OpenAgent.Runtime.Spawns
import OpenAgent.Privacy.Completion
import OpenAgent.Privacy.Revocation
import OpenAgent.Host.AtMostOnce
import OpenAgent.Host.Consent
import OpenAgent.Search.Compaction
import OpenAgent.Deliveries.SingleDispatch
import OpenAgent.Deliveries.Fencing
import OpenAgent.Deliveries.Replay
import OpenAgent.Scheduler.DueTasks
import OpenAgent.Models.Reports
import OpenAgent.Models.Rotation
import OpenAgent.Scheduler.ScheduleSync
import OpenAgent.Scheduler.StopAuthority
import OpenAgent.Compaction.Exclusion
import OpenAgent.Session.Mixing
import OpenAgent.Session.Revocation
import OpenAgent.Mcp.Supervision
import OpenAgent.Children.Failures
import OpenAgent.Messages.Retries
import OpenAgent.Grants.Tree
import OpenAgent.Models.Lifetime
import OpenAgent.Stream.Routing
import OpenAgent.Agent.Autoloop
import OpenAgent.Children.Ladders
import OpenAgent.Models.Answers
import OpenAgent.Mcp.Reconnect
import OpenAgent.Capabilities.Leases
import OpenAgent.Storage.Messages
import OpenAgent.Privacy.Inheritance
import OpenAgent.Privacy.Partition
import OpenAgent.Privacy.Lens
import OpenAgent.Children.Identity
import OpenAgent.Runtime.Serialisation
import OpenAgent.Transcript.Faithful
import OpenAgent.Host.Cleanup
import OpenAgent.Artifacts.Naming
import OpenAgent.Projection.Identifiers
import OpenAgent.Scheduler.Restarts
import OpenAgent.Scheduler.RetryChains
import OpenAgent.Workflow.ErrorEdges
import OpenAgent.Workflow.Failures
import OpenAgent.Workflow.Loops
import OpenAgent.Workflow.Slots
import OpenAgent.Stream.Parts
import OpenAgent.Voice.Speech
import OpenAgent.Budget.Alerts
import OpenAgent.Vault.Restore
import OpenAgent.Budget.Windows
import OpenAgent.Models.SchemaRepair
import OpenAgent.Workflow.Cycles
import OpenAgent.Storage.Pages
