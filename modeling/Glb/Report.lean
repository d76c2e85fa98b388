import Glb.Parse
import Glb.Pool
import Glb.Wdog
import Glb.Lib.Printf

namespace Glb
open Lib.CBuffer Lib.Printf

/-- `glb_sockaddr_to_astr`: the address right before position 15 of a blank text, the
port from there on. -/
def glbSockaddrToAstr (addr : SockAddr) : CStr :=
  let byte (b : UInt8) : CStr := decimal 0 b.toNat
  let a := addr.sinAddr
  let ip := byte a.b0 ++ '.' :: byte a.b1 ++ '.' :: byte a.b2 ++ '.' :: byte a.b3
  let port := ':' :: decimal 0 (glbSockaddrGetPort addr).toNat
  overlay (overlay (List.replicate 21 ' ') (15 - ip.length) ip) 15 port

/-- `%hhu.%hhu.%hhu.%hhu`. -/
def ipText (a : InAddr) : CStr :=
  let byte (b : UInt8) : CStr := decimal 0 b.toNat
  byte a.b0 ++ '.' :: byte a.b1 ++ '.' :: byte a.b2 ++ '.' :: byte a.b3

/-- `sizeof (glb_sockaddr_str_t)`. -/
def sockaddrStrSize : Nat := 22

/-- `glb_sockaddr_to_str`: the buffer after its only `snprintf ()`. -/
def glbSockaddrToStr (addr : SockAddr) : Report :=
  append sockaddrStrSize ⟨List.replicate sockaddrStrSize '\x00', 0, []⟩
    (ipText addr.sinAddr ++ ':' :: decimal 0 (glbSockaddrGetPort addr).toNat)

/-- `1.0 - usage/weight` under `%7.3f`. Without a weight it is no number or infinite,
which takes the width of the field whichever it is. -/
def usageText (d : RouterDst) : CStr :=
  if d.dst.weight = 0 then padLeft ' ' 7 (cstr "nan") else fixed 7 3 (1 - d.usage / d.dst.weight)

def routerHeader : CStr :=
  cstr "Router:\n" ++ cstr "------------------------------------------------------\n" ++
    cstr "        Address       :   weight   usage    map  conns\n"

/-- A line of the loop in `glb_router_print_info`. -/
def routerLine (cnf : Cnf) (d : RouterDst) : CStr :=
  if routerUsesMap cnf then
    glbSockaddrToAstr d.dst.addr ++ cstr " : " ++ fixed 8 3 d.dst.weight ++ cstr " " ++ usageText d ++
      cstr " " ++ fixed 7 3 d.map ++ cstr " " ++ decimal 5 d.conns ++ cstr "\n"
  else
    glbSockaddrToAstr d.dst.addr ++ cstr " : " ++ fixed 8 3 d.dst.weight ++ cstr " " ++ usageText d ++
      cstr "    N/A  " ++ decimal 5 d.conns ++ cstr "\n"

def routerFooter (cnf : Cnf) (r : Router) : CStr :=
  cstr "------------------------------------------------------\n" ++
    cstr "Destinations: " ++ decimal 0 r.dst.length ++ cstr ", total connections: " ++ decimal 0 r.conns ++
    cstr " of " ++ decimal 0 cnf.maxConn ++ cstr " max\n"

def routerTexts (cnf : Cnf) (r : Router) : List CStr :=
  routerHeader :: r.dst.map (routerLine cnf) ++ [routerFooter cnf r]

/-- `glb_router_print_info`, into a buffer that it is told has `bufLen` bytes. -/
def glbRouterPrintInfo (cnf : Cnf) (r : Router) (buf : List Char) (bufLen : Nat) : Report × Nat :=
  appendAll bufLen (routerTexts cnf r) ⟨buf, 0, []⟩

/-- `glb_dst_state_str`. -/
def DstState.str : DstState → CStr
  | .notfound => cstr "NOTFOUND"
  | .notready => cstr "NOTREADY"
  | .avoid => cstr "   AVOID"
  | .ready => cstr "   READY"

def wdogHeader : CStr :=
  cstr "Watchdog:\n" ++ cstr "------------------------------------------------------------\n" ++
    cstr "        Address       : exp  setw     state    lat     curw\n"

/-- A line of the loop in `glb_wdog_print_info`. -/
def wdogLine (d : WdogDst) : CStr :=
  glbSockaddrToAstr d.dst.addr ++ cstr " :  " ++ cstr (if d.explicit then "+" else " ") ++ cstr " " ++
    fixed 7 3 d.dst.weight ++ cstr " " ++ d.result.state.str ++ cstr "  " ++ fixed 7 5 d.result.latency ++
    cstr " " ++ fixed 7 3 d.weight ++ cstr "\n"

def wdogFooter (w : Wdog) : CStr :=
  cstr "------------------------------------------------------------\n" ++
    cstr "Destinations: " ++ decimal 0 w.dst.length ++ cstr "\n"

def wdogTexts (w : Wdog) : List CStr := wdogHeader :: w.dst.map wdogLine ++ [wdogFooter w]

/-- `glb_wdog_print_info` in a build with its assertions. The default build has none, and
does not stop at a buffer of 128 bytes or less. -/
def glbWdogPrintInfo (w : Wdog) (buf : List Char) (bufLen : Nat) : Option (Report × Nat) :=
  if 128 < bufLen then some (appendAll bufLen (wdogTexts w) ⟨buf, 0, []⟩) else none

/-- A quotient under `%9.2f`, as above. -/
def rateText (num den : ℚ) : CStr :=
  if den = 0 then padLeft ' ' 9 (cstr "nan") else fixed 9 2 (num / den)

/-- What `glb_pool_print_info` prints about a pool under `GLB_POOL_STATS`. -/
def poolStatsText (elapsed : ℚ) (i : Nat) (p : Pool) : CStr :=
  let s := p.stats
  cstr "Pool " ++ decimal 2 i ++ cstr ": conns: " ++ decimal 5 p.nConns ++
    cstr ", selects: " ++ decimal 9 s.nPolls ++ cstr " (" ++ rateText s.nPolls elapsed ++ cstr " sel/sec)\n" ++
  cstr "recv   : " ++ decimal 9 s.recvBytes ++ cstr "B " ++ decimal 9 s.nRecv ++ cstr "R " ++
    decimal 9 s.pollReads ++ cstr "S " ++ rateText s.recvBytes s.nRecv ++ cstr "B/R " ++
    rateText s.recvBytes elapsed ++ cstr "B/sec " ++ rateText s.nRecv s.nPolls ++ cstr "R/S " ++
    rateText s.nRecv elapsed ++ cstr "R/sec\n" ++
  cstr "send   : " ++ decimal 9 s.sendBytes ++ cstr "B " ++ decimal 9 s.nSend ++ cstr "W " ++
    decimal 9 s.pollWrites ++ cstr "S " ++ rateText s.sendBytes s.nSend ++ cstr "B/W " ++
    rateText s.sendBytes elapsed ++ cstr "B/sec " ++ rateText s.nSend s.nPolls ++ cstr "W/S " ++
    rateText s.nSend elapsed ++ cstr "W/sec\n"

/-- `elapsed` is there if `GLB_POOL_STATS` is defined. -/
def poolTexts (elapsed : Option ℚ) (pools : List Pool) : List CStr :=
  match elapsed with
  | none =>
    cstr "Pool: connections per thread:" ::
      pools.map (fun p => cstr " " ++ decimal 5 p.nConns) ++ [cstr "\n"]
  | some elapsed => pools.mapIdx (poolStatsText elapsed) ++ [cstr "\n"]

/-- `glb_pool_print_info`, apart from its clearing the statistics that it prints. -/
def glbPoolPrintInfo (elapsed : Option ℚ) (pools : List Pool) (buf : List Char) (bufLen : Nat) :
    Report × Nat :=
  appendAll bufLen (poolTexts elapsed pools) ⟨buf, 0, []⟩

end Glb
