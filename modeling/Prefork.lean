import Prefork.Main
import Prefork.Proofs.Server.Accounting
import Prefork.Proofs.Server.Defaults
import Prefork.Proofs.Server.HalfClose
import Prefork.Proofs.Server.Separation
import Prefork.Proofs.Server.Watching
import Prefork.Proofs.Supervision.Gate
import Prefork.Proofs.Supervision.Lifetimes
import Prefork.Proofs.Supervision.Tenure
import Prefork.Proofs.WebSocket.Closing
import Prefork.Proofs.WebSocket.Fragmentation
import Prefork.Proofs.WebSocket.Vetting
import Prefork.Server.Cluster
import Prefork.Supervision.Lifecycle
import Prefork.Proofs.Http.Consumption
import Prefork.Proofs.Http.Headers
import Prefork.Proofs.Http.Lines
import Prefork.Proofs.Http.NormalForm
import Prefork.Proofs.Http.Framing
import Prefork.Proofs.KeepAlive
import Prefork.Proofs.Http.Components
import Prefork.Proofs.Coordination.Calls
import Prefork.Proofs.Supervision.Cleanup
import Prefork.Proofs.Supervision.Pacing
import Prefork.Proofs.Supervision.Inspection
import Prefork.Proofs.WebSocket.Switching
import Prefork.Proofs.Supervision.Heartbeat
import Prefork.Proofs.Http.Edits
import Prefork.Proofs.Coordination.Holding
import Prefork.Proofs.CommandLine
import Prefork.Supervision.Deadline
import Prefork.Proofs.Supervision.Overflow
