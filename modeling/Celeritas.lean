import Celeritas.Logger.Fifo
import Celeritas.Logger.Access
import Celeritas.WaitRoom.Drain
import Celeritas.Net.Deadlock
import Celeritas.Net.Shutdown
import Celeritas.Net.Tls
import Celeritas.Net.Leak
import Celeritas.Net.Clearing
import Celeritas.Net.Life
import Celeritas.Http.Lengths
import Celeritas.Http.Framing
import Celeritas.Http.Pipeline
import Celeritas.Http.DocRoot
import Celeritas.Logger.Lines
import Celeritas.Queue.Fifo
import Celeritas.Queue.Wakeup
import Celeritas.Logger.Warn
import Celeritas.Startup.Calls
import Celeritas.Http.Send
import Celeritas.Worker.Release
import Celeritas.Logger.Batch
import Celeritas.Logger.Shutdown
import Celeritas.WaitRoom.Watcher
import Celeritas.WaitRoom.Kqueue
import Celeritas.Config.Documented
import Celeritas.Config.Reload
import Celeritas.Config.Snapshot
import Celeritas.Config.Paths
import Celeritas.Config.Range
import Celeritas.Config.Signals
import Celeritas.Http.ReadBuffer
import Celeritas.Http.ParseBuffer
import Celeritas.Http.Mirror
import Celeritas.Pool.Sweep
import Celeritas.Http.Admission
import Celeritas.Http.HeaderLimit
import Celeritas.Http.Demux
import Celeritas.Startup.Privileges
import Celeritas.Startup.Instance
import Celeritas.Startup.Descriptors
import Celeritas.Startup.LogPaths
import Celeritas.Http.Client
