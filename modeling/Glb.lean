import Glb.Base
import Glb.Control
import Glb.CtlChannel
import Glb.Daemon
import Glb.Events
import Glb.Exec
import Glb.Lib.CBuffer
import Glb.Lib.Claims
import Glb.Lib.CondVar
import Glb.Lib.Getopt
import Glb.Lib.Gray
import Glb.Lib.Keyed
import Glb.Lib.Printf
import Glb.Lib.Relay
import Glb.Lib.Run
import Glb.Lib.Runs
import Glb.Lib.Share
import Glb.Lib.Smooth
import Glb.Lib.Strto
import Glb.Lib.SwapRemove
import Glb.Lib.Sweep
import Glb.Lib.Tally
import Glb.Lib.Wheel
import Glb.Lib.Window
import Glb.LibGlb
import Glb.Limits
import Glb.Options
import Glb.Others
import Glb.Parse
import Glb.Pool
import Glb.Probe
import Glb.Proc
import Glb.Proofs.Accounted
import Glb.Proofs.AddrText
import Glb.Proofs.Affinity
import Glb.Proofs.Blocks
import Glb.Proofs.ConnLimit
import Glb.Proofs.ConnectCall
import Glb.Proofs.Counts
import Glb.Proofs.CtrlRequest
import Glb.Proofs.CtrlTable
import Glb.Proofs.DaemonLedger
import Glb.Proofs.DaemonSteps
import Glb.Proofs.Descriptors
import Glb.Proofs.Discovery
import Glb.Proofs.Drop
import Glb.Proofs.DstGrammar
import Glb.Proofs.EnvVars
import Glb.Proofs.EpollBatch
import Glb.Proofs.EventCalls
import Glb.Proofs.ExecCmd
import Glb.Proofs.ExecReplies
import Glb.Proofs.ExtraChecks
import Glb.Proofs.Failover
import Glb.Proofs.Fairness
import Glb.Proofs.FdSteps
import Glb.Proofs.FdTable
import Glb.Proofs.FrontEnds
import Glb.Proofs.HandedOut
import Glb.Proofs.HeldSlot
import Glb.Proofs.Hints
import Glb.Proofs.Interest
import Glb.Proofs.LastRequest
import Glb.Proofs.LatFactor
import Glb.Proofs.Latency
import Glb.Proofs.Leftover
import Glb.Proofs.LibConnect
import Glb.Proofs.LibRouter
import Glb.Proofs.Limits
import Glb.Proofs.LiveConns
import Glb.Proofs.LoopBody
import Glb.Proofs.MapShare
import Glb.Proofs.Mirror
import Glb.Proofs.NoFault
import Glb.Proofs.OthersFit
import Glb.Proofs.Ownership
import Glb.Proofs.PollScan
import Glb.Proofs.PoolEvents
import Glb.Proofs.PoolFrame
import Glb.Proofs.ProbeFresh
import Glb.Proofs.Proc
import Glb.Proofs.Reconnect
import Glb.Proofs.Registry
import Glb.Proofs.Relay
import Glb.Proofs.Release
import Glb.Proofs.Removal
import Glb.Proofs.Report
import Glb.Proofs.Roster
import Glb.Proofs.RouteMap
import Glb.Proofs.RouterCalls
import Glb.Proofs.RouterCore
import Glb.Proofs.RouterCount
import Glb.Proofs.RouterFrame
import Glb.Proofs.RouterRun
import Glb.Proofs.RouterSum
import Glb.Proofs.RouterTable
import Glb.Proofs.Scan
import Glb.Proofs.ScanEnds
import Glb.Proofs.SecondChoice
import Glb.Proofs.Selection
import Glb.Proofs.SendCtl
import Glb.Proofs.Serving
import Glb.Proofs.Shutdown
import Glb.Proofs.Spread
import Glb.Proofs.Stalls
import Glb.Proofs.Sticky
import Glb.Proofs.Stream
import Glb.Proofs.Tokens
import Glb.Proofs.TopDst
import Glb.Proofs.Traffic
import Glb.Proofs.Turns
import Glb.Proofs.Writers
import Glb.Report
import Glb.Router
import Glb.RouterThreads
import Glb.RouterWriters
import Glb.Standard
import Glb.Wdog
