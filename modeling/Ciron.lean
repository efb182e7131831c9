import Ciron.Transition.Run
import Ciron.Transition.Simulation
import Ciron.Transition.Budget
import Ciron.Graph.Search
import Ciron.Graph.Topological
import Ciron.Graph.Kahn
import Ciron.Graph.BreadthFirst
import Ciron.Graph.ReadyQueue
import Ciron.Data.History
import Ciron.Data.Counting
import Ciron.Data.Broadcast
import Ciron.Data.Lines
import Ciron.Data.Text
import Ciron.Common.Config
import Ciron.Common.Transport
import Ciron.Process.Manager
import Ciron.Process.StartOrder
import Ciron.Process.OrderShape
import Ciron.Process.Noise
import Ciron.Process.Start
import Ciron.Process.NoPanic
import Ciron.Process.Attempts
import Ciron.Process.Autostart
import Ciron.Daemon.Moves
import Ciron.Daemon.System
import Ciron.Daemon.Invariant
import Ciron.Daemon.Delivery
import Ciron.Daemon.Control
import Ciron.Daemon.Calls
import Ciron.Daemon.EventLoop
import Ciron.Daemon.Supervision
import Ciron.Daemon.Restarts
import Ciron.Daemon.Tracking
import Ciron.Daemon.Draining
import Ciron.Daemon.Phases
import Ciron.Daemon.Reviving
import Ciron.Daemon.Revival
import Ciron.Daemon.Stopping
import Ciron.Daemon.Shutdown
import Ciron.Daemon.Startup
import Ciron.Logs.Buffer
import Ciron.Logs.Follow
import Ciron.Logs.GetLogs
import Ciron.Logs.Response
import Ciron.Logs.Completion
import Ciron.Logs.Refinement
import Ciron.Logs.Reader
import Ciron.Logs.Pipeline
import Ciron.Logs.Streams
import Ciron.Logs.Format
import Ciron.Client.Cironctl
import Ciron.Client.Status
import Ciron.Daemon.Boot
import Ciron.Daemon.Orders
import Ciron.Daemon.Automatic
import Ciron.Daemon.Workload
import Ciron.Daemon.Holder
import Ciron.Daemon.Progress
import Ciron.Daemon.Accounting
import Ciron.Daemon.StopAll
import Ciron.Daemon.Ending
import Ciron.Daemon.Serial
import Ciron.Daemon.Service
import Ciron.Daemon.Supervisor
import Ciron.Daemon.Announced
