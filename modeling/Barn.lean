import Barn.Interaction.Program
import Barn.Interaction.Refinement
import Barn.Agent.ChannelSelector
import Barn.Agent.Monitor
import Barn.Data.Decimal
import Barn.Data.Greedy
import Barn.Agent.Rsync
import Barn.Hdfs.AllOrNothing
import Barn.Hdfs.NoLoss
import Barn.Hdfs.Plan
import Barn.Hdfs.Retention
import Barn.Hdfs.Selection
import Barn.Hdfs.Cleanup
import Barn.Data.StepTable
import Barn.Hdfs.LeapSeconds
import Barn.Hdfs.Outstanding
import Barn.Hdfs.Throttle
import Barn.Hdfs.Solo
import Barn.Hdfs.Shipping
import Barn.Hdfs.Escape
import Barn.Hdfs.EarlyShip
import Barn.Agent.Helpers
import Barn.Interaction.Trace
import Barn.Agent.Dispatch
import Barn.Agent.Accounts
import Barn.Hdfs.LastShipped
import Barn.Hdfs.LabelOrder
import Barn.Agent.Params
import Barn.Data.Lines
import Barn.Rtail.Pipe
import Barn.Platform.Streams
import Barn.Agent.LocalReport
import Barn.Hdfs.Combiner
import Barn.Agent.FileOps
import Barn.Data.Feed
import Barn.Agent.Delivery
import Barn.Hdfs.View
import Barn.Interaction.Pool
import Barn.Hdfs.Collector
import Barn.Hdfs.SharedCache
import Barn.Interaction.Couple
import Barn.Pipeline
import Barn.Hdfs.Independence
import Barn.Interaction.Channel
import Barn.Rtail.Network
import Barn.Agent.Process
import Barn.Agent.Deployment
import Barn.Agent.Telemetry
import Barn.Agent.CatchUp
import Barn.Hdfs.CatchUp
