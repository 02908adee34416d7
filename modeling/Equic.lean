import Equic.Foundation.Runs
import Equic.Foundation.Ledger
import Equic.Foundation.BoundedMap
import Equic.Foundation.CInt
import Equic.Foundation.Admission
import Equic.Foundation.Process
import Equic.Foundation.Unwinding
import Equic.Foundation.Loop
import Equic.Foundation.Buffer
import Equic.Foundation.Cyclic
import Equic.Foundation.Decimal
import Equic.Foundation.Ere
import Equic.Foundation.Chunks
import Equic.Foundation.Digest
import Equic.Foundation.Reader
import Equic.Foundation.FdTable
import Equic.Foundation.Pool
import Equic.Net.Sockaddr
import Equic.Kern.Counters
import Equic.Kern.UdpQuota
import Equic.Kern.Xdp
import Equic.Kern.Verdict
import Equic.Kern.Trace
import Equic.User.Counter
import Equic.User.Key
import Equic.User.Lifecycle
import Equic.Server.Quota
import Equic.Server.Extraction
import Equic.Server.Callbacks
import Equic.Server.System
import Equic.Server.Main
import Equic.Accounting.UserSpace
import Equic.Accounting.Ebpf
import Equic.Accounting.Capacity
import Equic.Accounting.Enforcement
import Equic.Accounting.Interleaving
import Equic.Accounting.Policy
import Equic.Accounting.Isolation
import Equic.Accounting.Durations
import Equic.Echo.Connections
import Equic.Echo.Lines
import Equic.Interop.Idle
import Equic.Interop.HeaderSet
import Equic.Interop.VerifyHeaders
import Equic.Interop.Routes
import Equic.Interop.OnRead
import Equic.Interop.Routing
import Equic.Interop.SizeRequest
import Equic.Interop.Exchange
import Equic.Interop.Answer
import Equic.Interop.Stages
import Equic.Lifecycle.Roles
import Equic.Lifecycle.Ownership
import Equic.Lifecycle.Unload
import Equic.Filesystem.OnWrite
import Equic.Filesystem.Request
import Equic.Filesystem.Stream
import Equic.Filesystem.Serve
import Equic.Filesystem.Hq
import Equic.Filesystem.Descriptors
import Equic.Interop.Streams
import Equic.Interop.Pushes
import Equic.Interop.Assertion
import Equic.Foundation.Mutex
import Equic.Foundation.PyText
import Equic.Server.RequestCounter
import Equic.Server.Stopping
import Equic.Server.Stdout
import Equic.Experiments.Extract
import Equic.Experiments.Measurements
import Equic.Experiments.KernelLog
import Equic.Experiments.Statistics
