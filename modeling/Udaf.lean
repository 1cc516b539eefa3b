import Udaf.Lib.Bytes
import Udaf.Lib.ShiftLoop
import Udaf.Lib.Decimal
import Udaf.Lib.Hex
import Udaf.Lib.Text
import Udaf.Lib.Table
import Udaf.Lib.Numbering
import Udaf.Lib.Run
import Udaf.Lib.Posix
import Udaf.Lib.OutStream
import Udaf.Lib.FileNames
import Udaf.Lib.Assembly
import Udaf.Lib.FrameLog
import Udaf.Lib.Damage
import Udaf.Lib.HashChain
import Udaf.Lib.ChainWriters
import Udaf.Lib.Symbolic
import Udaf.Lib.Ring
import Udaf.Lib.LastWriter
import Udaf.Lib.Moments
import Udaf.Lib.Priority
import Udaf.Lib.SlidingWindow
import Udaf.Lib.Conveyor
import Udaf.Lib.DuplexStream
import Udaf.Lib.LossyLink
import Udaf.Lib.Wakeups
import Udaf.Lib.Ownership
import Udaf.Lib.Buffer
import Udaf.Lib.PathComponents
import Udaf.Lib.DepthFirst
import Udaf.Core.ErrorCode
import Udaf.Core.RingBuffer
import Udaf.Core.RingBufferFifo
import Udaf.Core.DynamicRingBuffer
import Udaf.Core.RingBufferSpsc
import Udaf.Core.SpscSafety
import Udaf.Wal.Core
import Udaf.Wal.FileOps
import Udaf.Wal.EntryCodec
import Udaf.Wal.Traversal
import Udaf.Wal.Operations
import Udaf.Wal.History
import Udaf.Wal.Sequence
import Udaf.Wal.Refinement
import Udaf.Wal.Crash
import Udaf.Wal.Faults
import Udaf.Wal.Bounds
import Udaf.Wal.FailedAppend
import Udaf.Wal.FailedTruncate
import Udaf.Wal.Agreement
import Udaf.Wal.Corruption
import Udaf.Wal.Ordering
import Udaf.Wal.Shared
import Udaf.Audit.Core
import Udaf.Audit.Line
import Udaf.Audit.Chain
import Udaf.Audit.Integrity
import Udaf.Audit.Atomic
import Udaf.Audit.Recovery
import Udaf.Audit.Tamper
import Udaf.Audit.Binding
import Udaf.Audit.RecordText
import Udaf.Audit.Shared
import Udaf.Crypto.Core
import Udaf.Crypto.Psk
import Udaf.Crypto.Authenticator
import Udaf.Crypto.Codec
import Udaf.Crypto.Handshake
import Udaf.Crypto.Session
import Udaf.Crypto.Attacker
import Udaf.Crypto.Secrecy
import Udaf.Crypto.Agreement
import Udaf.Crypto.Channel
import Udaf.Crypto.Responder
import Udaf.Crypto.SessionKeys
import Udaf.Crypto.RequestCodec
import Udaf.Crypto.ResponseCodec
import Udaf.Crypto.FailedHandshake
import Udaf.Crypto.Keystore
import Udaf.Crypto.PkiHandshake
import Udaf.AbilityA.UdpSocket
import Udaf.Crypto.NonceReuse
import Udaf.AbilityA.UdpPsk
import Udaf.AbilityA.RateLimit
import Udaf.AbilityA.ServiceRegistry
import Udaf.AbilityA.RegistryDispatch
import Udaf.AbilityA.RegistryEvents
import Udaf.AbilityA.RegistrySilence
import Udaf.AbilityA.Subscriptions
import Udaf.AbilityA.Advertisement
import Udaf.AbilityA.Advertiser
import Udaf.AbilityA.Scanner
import Udaf.AbilityA.Discovery
import Udaf.AbilityA.ReplayWindow
import Udaf.AbilityA.ForgedFrames
import Udaf.AbilityA.PayloadParsing
import Udaf.AbilityA.DiscoveryNetwork
import Udaf.AbilityA.Background
import Udaf.AbilityA.BackgroundStop
import Udaf.AbilityA.Restart
import Udaf.AbilityA.PeerWhitelist
import Udaf.AbilityB.InprocChannel
import Udaf.AbilityB.InprocLoss
import Udaf.AbilityB.InprocPriority
import Udaf.AbilityB.InprocWakeups
import Udaf.AbilityB.Port
import Udaf.AbilityB.PortQueue
import Udaf.AbilityB.PortWakeups
import Udaf.AbilityB.TcpFrame
import Udaf.AbilityB.TcpChannel
import Udaf.AbilityB.Serializer
import Udaf.AbilityB.Topology
import Udaf.AbilityB.TopologyGraph
import Udaf.AbilityB.TopologyContents
import Udaf.AbilityB.TopologyReplay
import Udaf.AbilityB.TopologyCycle
import Udaf.AbilityB.Scheduler
import Udaf.AbilityC.FileXfer
import Udaf.AbilityC.FileXferSafety
import Udaf.AbilityC.FileXferAcks
import Udaf.AbilityC.NodeLifecycle
import Udaf.AbilityC.ProcessExecutor
import Udaf.AbilityC.CmdExecNode
import Udaf.AbilityC.CmdExecStop
import Udaf.AbilityC.NetInfoNode
import Udaf.Sdk.Client
import Udaf.Sdk.ClientRuns
import Udaf.Sdk.ClientContract
import Udaf.Sdk.TrustListC
import Udaf.Sdk.CApi
import Udaf.Sdk.DiscoverC
import Udaf.Observability.Meter
import Udaf.Observability.Tracer
import Udaf.Cli.Commands
import Udaf.Cli.Sessions
