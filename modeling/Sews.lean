import Sews.Connection.Resume
import Sews.Http.PathSplit
import Sews.Http.ResponseLength
import Sews.Http.Completeness
import Sews.Runtime.Registration
import Sews.Runtime.Answering
import Sews.Runtime.Promise
import Sews.Runtime.Isolation
import Sews.Runtime.HalfOpen
import Sews.Runtime.Shutdown
import Sews.Runtime.BatchOrder
import Sews.Runtime.Process
import Sews.Runtime.Reports
import Sews.Telemetry.History
import Sews.Telemetry.Export
import Sews.Program.Tally
import Sews.Program.Crash
import Sews.Program.Arrival
