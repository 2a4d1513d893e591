import Spock.Conflict.Tiebreak
import Spock.Conflict.DeltaApply
import Spock.Conflict.Frame
import Spock.Conflict.UniqueIndex
import Spock.Feedback.SyncStandby
import Spock.Worker.Skip
import Spock.Worker.ApplyDelay
import Spock.Worker.SyncEvent
import Spock.Worker.TryBlock
import Spock.Worker.Report
import Spock.Worker.Once
import Spock.Pass.Counters
import Spock.Pass.MessageKeys
import Spock.Pass.Survivors
import Spock.Protocol.RoundTrip
import Spock.Protocol.ChangeLog
import Spock.Repset.Session
import Spock.Repset.Sequences
import Spock.Repset.Partitions
import Spock.Output.Startup
import Spock.Output.Grammar
import Spock.Output.Snapshots
import Spock.Output.Truncate
import Spock.Output.Filtered
import Spock.Output.Schema
import Spock.Output.Flags
import Spock.Group.Order
import Spock.Nodes.ConnStr
import Spock.Nodes.SlotNames
import Spock.Nodes.NoEcho
import Spock.Nodes.Forwarded
import Spock.Sync.ExactlyOnce
import Spock.Progress.Invariant
import Spock.Progress.Merge
import Spock.Progress.Recovery
import Spock.Progress.CommitScan
import Spock.Conflict.CommitClock
import Spock.AutoDdl.Managed
import Spock.AutoDdl.SqlCommand
import Spock.Registry.LeftOver
import Spock.Pause.Workers
import Spock.Failover.Confirmation
import Spock.ExceptionLog.Exclusive
import Spock.ExceptionLog.Bounds
import Spock.Failover.Promise
