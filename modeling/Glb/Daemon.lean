import Glb.Pool

namespace Glb

/-- Where the listener thread is between two steps of other threads: waiting for
a client, inside `connect ()` for the destination at an index, or holding a
destination that no pool has been given yet. -/
inductive Listener where
  | idle
  | connecting (inc : Fd) (incAddr : SockAddr) (sock : Fd) (hint : UInt32) (dst : Nat)
  | chosen (inc : Fd) (incAddr : SockAddr) (dstSock : Fd) (dstAddr : SockAddr) (complete : Bool)
  deriving DecidableEq, Repr

/-- What the control thread answered and which pools it told to drop an address. -/
inductive CtrlEv where
  | answer (dst : Dst) (ok : Bool)
  | told (pool : Nat) (dst : SockAddr)
  deriving DecidableEq, Repr

/-- Which of its optional parts `glb_ctrl_t` was created with. -/
structure Ctrl where
  pool : Bool
  wdog : Bool
  deriving DecidableEq, Repr

/-- The process: its pools, its listener and its control thread. -/
structure Daemon extends Shared where
  pools : List Pool
  listener : Listener
  nextBlock : Nat
  ctrlLog : List CtrlEv

namespace Daemon

/-- Pool `i` with what it shares, as its thread sees it. -/
def world (d : Daemon) (p : Pool) : World := { p, d.toShared with }

def put (d : Daemon) (i : Nat) (w : World) : Daemon :=
  { d with toShared := w.toShared, pools := d.pools.set i w.toPool }

def close (d : Daemon) (fd : Fd) : Daemon :=
  { d with isOpen := Function.update d.isOpen fd false, log := d.log ++ [.close fd] }

def opened (d : Daemon) (fd : Fd) : Daemon :=
  { d with isOpen := Function.update d.isOpen fd true }

/-- The kernel hands out positive descriptors that are not open. -/
def fresh (d : Daemon) (fd : Fd) : Bool := 0 < fd && !d.isOpen fd

end Daemon

/-- The loop of `pool_get_pool` from index `i` on. -/
def getPoolLoop : List Pool → Nat → Nat × Int → Nat
  | [], _, (ret, _) => ret
  | p :: ps, i, (ret, minConns) =>
    if minConns > p.nConns then getPoolLoop ps (i + 1) (i, p.nConns)
    else getPoolLoop ps (i + 1) (ret, minConns)

/-- `pool_get_pool`: the index of the least busy pool. -/
def poolGetPool : List Pool → Nat
  | [] => 0
  | p :: ps => getPoolLoop ps 1 (0, p.nConns)

/-- The block that `glb_pool_add_conn` fills in. -/
def newConn (incSock : Fd) (incAddr : SockAddr) (dstSock : Fd) (dstAddr : SockAddr)
    (complete : Bool) : Conn where
  inc := ⟨incAddr, 0, 0, incSock, 0, .client, []⟩
  dst := ⟨dstAddr, 0, 0, dstSock, 0, if complete then .complete else .incomplete, []⟩

section steps
variable (build : Build) (cnf : Cnf)

/-- The hint that `glb_router_connect` takes from a client's address. -/
def connectHint (addr : SockAddr) : UInt32 :=
  if cnf.policy.toNat < Policy.source.toNat then 0 else glbSockaddrHash addr

/-- `accept ()` and `glb_router_connect` up to the first `connect ()`. In
synchronous mode `sock` is what `glb_socket_create` returned; it does not fail
with `EINPROGRESS`. -/
def listenerAccept (d : Daemon) (fd : Fd) (addr : SockAddr) (sock : Fd) (env : ChooseEnv) :
    Option Daemon :=
  if d.listener ≠ .idle ∨ !d.fresh fd then none
  else
    let d := d.opened fd
    let hint := connectHint cnf addr
    if d.router.conns ≥ cnf.maxConn then some (d.close fd)
    else if !cnf.synchronous then
      match glbRouterChooseDst cnf env d.router hint with
      | (r, some dstAddr) => some { d with router := r, listener := .chosen fd addr (-1) dstAddr false }
      | (r, none) => some (({ d with router := r }).close fd)
    else if sock < 0 then
      if sock = -EINPROGRESS then none else some (d.close fd)
    else if !d.fresh sock then none
    else
      let d := d.opened sock
      match routerConnectStart cnf env d.router hint with
      | (r, some i) => some { d with router := r, listener := .connecting fd addr sock hint i }
      | (r, none) => some ((({ d with router := routerConnectEnd r }).close sock).close fd)

/-- `connect ()` came back with `error`, zero for success. -/
def listenerConnected (d : Daemon) (error now : Int) (env : ChooseEnv) : Option Daemon :=
  match d.listener with
  | .connecting inc incAddr sock hint i =>
    if error ≠ 0 ∧ error ≠ EINPROGRESS then
      match routerConnectRetry cnf now env d.router hint i with
      | (r, some j) => some { d with router := r, listener := .connecting inc incAddr sock hint j }
      | (r, none) =>
        let d := { d with router := routerConnectEnd r, listener := .idle }
        some ((d.close sock).close inc)
    else
      match d.router.addrAt (some i) with
      | none => none
      | some dstAddr =>
        let d := { d with router := routerConnectEnd d.router }
        if error = 0 then some { d with listener := .chosen inc incAddr sock dstAddr true }
        else some { d.close sock with listener := .chosen inc incAddr (-EINPROGRESS) dstAddr false }
  | _ => none

/-- What the listener does when `glb_pool_add_conn` fails. -/
def listenerUndo (d : Daemon) (inc dstSock : Fd) (dstAddr : SockAddr) : Daemon :=
  let d := d.close dstSock
  let d := { d with
    router := glbRouterDisconnect cnf 0 d.router dstAddr false
    listener := .idle }
  d.close inc

/-- `glb_pool_add_conn`. `malloc` and `write` tell whether these succeed; a block
whose ctl could not be written is not freed. The listener does not have to wait
for the pool here, which allows more runs than the code does. -/
def glbPoolAddConn (d : Daemon) (malloc write : Bool) : Option Daemon :=
  match d.listener with
  | .chosen inc incAddr dstSock dstAddr complete =>
    if !malloc then some (listenerUndo cnf d inc dstSock dstAddr)
    else
      let block := d.nextBlock
      let conn := newConn inc incAddr dstSock dstAddr complete
      let d := { d with
        heap := Function.update d.heap block (some conn)
        nextBlock := block + 1 }
      if write then
        some { d with
          pools := d.pools.modify (poolGetPool d.pools)
            fun p => { p with pipe := p.pipe ++ [.addConn block] }
          listener := .idle }
      else some (listenerUndo cnf d inc dstSock dstAddr)
  | _ => none

/-- What a control request asks for, once read and parsed. -/
inductive CtrlRequest where
  | getinfo
  | getstat
  | malformed
  | change (dst : Dst)
  deriving DecidableEq, Repr

/-- `pool_bcast_ctl`. -/
def poolBcastCtl (d : Daemon) (ctl : PoolCtl) : Daemon :=
  { d with pools := d.pools.map fun p => { p with pipe := p.pipe ++ [ctl] } }

/-- `glb_pool_drop_dst`, noting that every pool was told. -/
def glbPoolDropDst (d : Daemon) (dst : SockAddr) : Daemon :=
  let d := poolBcastCtl d (.dropDst dst)
  { d with ctrlLog := d.ctrlLog ++ (List.range d.pools.length).map (fun i => .told i dst) }

/-- The condition under which `ctrl_handle_request` tells the pools. -/
def ctrlDrops (ctrl : Ctrl) (dst : Dst) : Bool := ctrl.pool && dst.weight < 0 && ctrl.wdog

/-- Whether `glb_router_change_dst` has to wait for connecting threads. -/
def routerChangeWaits (r : Router) (dst : Dst) : Bool :=
  let found := routerFindDst r dst
  (found.isNone != (dst.weight < 0 : Bool)) && r.busyCount > 0

/-- `ctrl_handle_request` without a watchdog; with one the change goes to the
watchdog instead. -/
def ctrlHandleRequest (ctrl : Ctrl) (d : Daemon) (req : CtrlRequest) (env : ChangeEnv) :
    Option Daemon :=
  match req with
  | .getinfo => some d
  | .getstat => some (if ctrl.pool then poolBcastCtl d .stats else d)
  | .malformed => some d
  | .change dst =>
    if ctrl.wdog || routerChangeWaits d.router dst then none
    else
      let (r, err) := glbRouterChangeDst cnf env d.router dst none
      let d := { d with router := r }
      if err < 0 then some { d with ctrlLog := d.ctrlLog ++ [.answer dst false] }
      else
        let d := { d with ctrlLog := d.ctrlLog ++ [.answer dst true] }
        some (if ctrlDrops ctrl dst then glbPoolDropDst d dst.addr else d)

/-- One step of a thread. `drop` is the watchdog's call of `glb_pool_drop_dst`,
`destroy` the broadcast that opens `glb_pool_destroy`. -/
inductive DaemonOp where
  | accept (fd : Fd) (addr : SockAddr) (sock : Fd) (env : ChooseEnv)
  | connected (error now : Int) (env : ChooseEnv)
  | addConn (malloc write : Bool)
  | ctl (pool : Nat) (env : CtlEnv)
  | read (pool : Nat) (fd : Fd) (recv : RecvOut) (send : SendOut)
  | write (pool : Nat) (fd : Fd) (env : CompleteEnv) (send : SendOut)
  | request (req : CtrlRequest) (env : ChangeEnv)
  | drop (dst : SockAddr)
  | destroy

/-- Runs a handler in the thread of pool `i`, which exits on shutdown. -/
def Daemon.onPool (d : Daemon) (i : Nat) (handle : World → Option World) : Option Daemon :=
  match d.pools[i]? with
  | none => none
  | some p => if p.shutdown then none else (handle (d.world p)).map (d.put i)

def poolReadCtl (w : World) (env : CtlEnv) : Option World :=
  match w.pipe with
  | [] => none
  | c :: pipe => (poolHandleCtl build cnf { w with pipe := pipe } c env).map Prod.fst

def daemonStep (ctrl : Ctrl) (d : Daemon) : DaemonOp → Option Daemon
  | .accept fd addr sock env => listenerAccept cnf d fd addr sock env
  | .connected error now env => listenerConnected cnf d error now env
  | .addConn malloc write => glbPoolAddConn cnf d malloc write
  | .ctl i env => d.onPool i (fun w => poolReadCtl build cnf w env)
  | .read i fd recv send =>
    d.onPool i (fun w => (poolHandleRead build cnf w fd recv send).map Prod.fst)
  | .write i fd env send => d.onPool i (fun w => poolHandleWrite build cnf w fd env send)
  | .request req env => ctrlHandleRequest cnf ctrl d req env
  | .drop dst => some (poolBcastCtl d (.dropDst dst))
  | .destroy => some (poolBcastCtl d .shutdown)

/-- What the next ctl of a pool adds to its sender's statistics. -/
def poolReadStats (w : World) (env : CtlEnv) : Stats :=
  match w.pipe with
  | [] => glbZeroStats
  | c :: pipe => ((poolHandleCtl build cnf { w with pipe := pipe } c env).map Prod.snd).getD glbZeroStats

/-- The daemon together with the sum of all the statistics reported so far, that is handed
over by `pool_handle_stats`. -/
def reportStep (ctrl : Ctrl) (x : Daemon × Stats) (op : DaemonOp) : Option (Daemon × Stats) := do
  let d ← daemonStep build cnf ctrl x.1 op
  match op with
  | .ctl i env =>
    let p ← x.1.pools[i]?
    some (d, glbPoolStatsAdd x.2 (poolReadStats build cnf (x.1.world p) env))
  | _ => some (d, x.2)

end steps

/-- A pool right after `pool_init`, with `fd` the receiving end of its pipe. -/
def Pool.init (fd : Fd) : Pool where
  ctlRecv := fd
  pipe := []
  nConns := 0
  fdset := ⟨[⟨fd, poolFdRead, 0⟩], fdSetsize, fun _ => 0⟩
  stats := glbZeroStats
  shutdown := false
  routeMap := fun _ => none

/-- The daemon before it serves its first client: pools on pipes of their own,
`used` the descriptors in use, no connection anywhere. -/
def Daemon.init (pipes : List Fd) (used : Fd → Bool) (router : Router) : Daemon where
  heap := fun _ => none
  router := router
  isOpen := used
  log := []
  pools := pipes.map Pool.init
  listener := .idle
  nextBlock := 0
  ctrlLog := []

end Glb
