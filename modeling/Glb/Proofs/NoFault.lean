import Glb.Proofs.ScanEnds

namespace Glb.Proofs.NoFault
open Function Lib.Run PoolFrame PoolEvents DaemonSteps Ownership DaemonLedger Registry FdTable FdSteps
open Descriptors Drop ScanEnds RouterRun

variable {build : Build} {cnf : Cnf} {ctrl : Ctrl} {d d' : Daemon} {w w' w1 : World} {v : View}
variable {claim : Owner → Option Fd} {home : Nat → Option Home} {i b : Nat} {c : Conn} {s : Side}

section worlds

end worlds

section daemon

end daemon

end Glb.Proofs.NoFault
