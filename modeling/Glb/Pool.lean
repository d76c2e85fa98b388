import Glb.Lib.Window
import Glb.Router
import Mathlib.Logic.Function.Basic

namespace Glb
open Lib.SwapRemove Lib.Window

abbrev Fd := Int

/-- `BUFSIZ` of the C library. -/
def poolEndSize : Int := 8192

def sizeofSockaddr : Int := 16

/-- `pool_end_size - sizeof (pool_conn_end_t)`. -/
def poolBufSize : Nat := 8192 - 48

def poolMaxFd : Nat := 2 ^ 16

def fdSetsize : Nat := 1024

/- `POLLIN`, and `POLLOUT | POLLERR`; the epoll constants have the same values. -/
def poolFdRead : BitVec 32 := 1
def poolFdWrite : BitVec 32 := 12

/-- `pool_end_t`. -/
inductive PoolEnd where
  | incomplete
  | complete
  | client
  deriving DecidableEq, Repr

/-- `pool_conn_end_t` without `fds_idx`, which the descriptor set keeps. `buf`
holds the bytes written so far; what lies behind them was never initialized. -/
structure ConnEnd where
  addr : SockAddr
  sent : Nat
  total : Nat
  sock : Fd
  events : BitVec 32
  kind : PoolEnd
  buf : List UInt8
  deriving DecidableEq, Repr

/-- `buf[sent..total)`. -/
def ConnEnd.pending (e : ConnEnd) : List UInt8 := window e.buf e.sent e.total

/-- The block that one `malloc` call yields for both ends of a connection: the
client end at offset zero, the server end at `pool_end_size`. -/
structure Conn where
  inc : ConnEnd
  dst : ConnEnd
  deriving DecidableEq, Repr

/-- A pointer into a block. Blocks are numbered, and no number is used twice. -/
structure EndPtr where
  block : Nat
  off : Int
  deriving DecidableEq, Repr

def incPtr (block : Nat) : EndPtr := ⟨block, 0⟩
def dstPtr (block : Nat) : EndPtr := ⟨block, poolEndSize⟩

/-- What the pools did to sockets and memory, oldest first. `recv` and `send` are
filed under the end whose buffer they used, with the length they were given. -/
inductive Ev where
  | recv (dst : EndPtr) (sock : Fd) (off len : Nat) (bytes : List UInt8)
  | send (dst : EndPtr) (sock : Fd) (len : Nat) (bytes : List UInt8)
  | close (fd : Fd)
  | free (block : Nat)
  deriving DecidableEq, Repr

structure PollFd where
  fd : Fd
  events : BitVec 32
  revents : BitVec 32
  deriving DecidableEq, Repr

/-- The descriptor set. In the poll build `pollfds` is the array up to `fd_max`;
in the epoll build it is the kernel's interest list, and `fd_max` its length. -/
structure FdSet where
  pollfds : List PollFd
  pollfdsLen : Nat
  fdsIdx : EndPtr → Nat

def FdSet.fdMax (s : FdSet) : Nat := s.pollfds.length

inductive Build where
  | poll
  | epoll
  deriving DecidableEq, Repr

/-- `glb_pool_stats_t`. -/
structure Stats where
  rxBytes : Int
  txBytes : Int
  recvBytes : Int
  nRecv : Int
  sendBytes : Int
  nSend : Int
  connsOpened : Int
  connsClosed : Int
  nConns : Int
  pollReads : Int
  pollWrites : Int
  nPolls : Int
  deriving DecidableEq, Repr

def glbZeroStats : Stats := ⟨0, 0, 0, 0, 0, 0, 0, 0, 0, 0, 0, 0⟩

def glbPoolStatsAdd (left right : Stats) : Stats where
  rxBytes := left.rxBytes + right.rxBytes
  txBytes := left.txBytes + right.txBytes
  recvBytes := left.recvBytes + right.recvBytes
  nRecv := left.nRecv + right.nRecv
  sendBytes := left.sendBytes + right.sendBytes
  nSend := left.nSend + right.nSend
  connsOpened := left.connsOpened + right.connsOpened
  connsClosed := left.connsClosed + right.connsClosed
  nConns := left.nConns + right.nConns
  pollReads := left.pollReads + right.pollReads
  pollWrites := left.pollWrites + right.pollWrites
  nPolls := left.nPolls + right.nPolls

/-- `pool_ctl_t`. -/
inductive PoolCtl where
  | addConn (block : Nat)
  | dropDst (dst : SockAddr)
  | stats
  | shutdown
  deriving DecidableEq, Repr

/-- `pool_t` as far as its thread changes it, with what its control pipe holds. -/
structure Pool where
  ctlRecv : Fd
  pipe : List PoolCtl
  nConns : Int
  fdset : FdSet
  stats : Stats
  shutdown : Bool
  routeMap : Fd → Option EndPtr

/-- What all threads share: memory, the router, the process's open descriptors. -/
structure Shared where
  heap : Nat → Option Conn
  router : Router
  isOpen : Fd → Bool
  log : List Ev

/-- One pool together with what it shares. Handlers return no world where the
process would abort or follow a bad pointer. -/
structure World extends Pool, Shared

namespace World

def deref (w : World) (p : EndPtr) : Option ConnEnd :=
  (w.heap p.block).bind fun c =>
    if p.off = 0 then some c.inc else if p.off = poolEndSize then some c.dst else none

def store (w : World) (p : EndPtr) (e : ConnEnd) : World :=
  { w with heap := Function.update w.heap p.block ((w.heap p.block).map fun c =>
      if p.off = 0 then { c with inc := e }
      else if p.off = poolEndSize then { c with dst := e }
      else c) }

def close (w : World) (fd : Fd) : World :=
  { w with isOpen := Function.update w.isOpen fd false, log := w.log ++ [.close fd] }

def free (w : World) (block : Nat) : World :=
  { w with heap := Function.update w.heap block none, log := w.log ++ [.free block] }

end World

section handlers
variable (build : Build) (cnf : Cnf)

/-- `pool_fds_add` on the socket of the end `p`, with the index stored as its
caller does. An epoll set refuses a descriptor it holds already, and the caller
aborts. -/
def poolFdsAdd (w : World) (p : EndPtr) (fd : Fd) (events : BitVec 32) : Option World :=
  let s := w.fdset
  if build = .epoll ∧ s.pollfds.any (fun x => x.fd = fd) then none
  else some { w with fdset := {
    pollfds := s.pollfds ++ [⟨fd, events, 0⟩]
    pollfdsLen := if s.fdMax = s.pollfdsLen then s.pollfdsLen + fdSetsize else s.pollfdsLen
    fdsIdx := Function.update s.fdsIdx p s.fdMax } }

def poolConnEndByFd (w : World) (fd : Fd) : Option EndPtr := do
  let other ← w.routeMap fd
  let e ← w.deref other
  some (if e.kind = .client then ⟨other.block, other.off + poolEndSize⟩
    else ⟨other.block, other.off - poolEndSize⟩)

def poolFdsDel (w : World) (p : EndPtr) : Option World := do
  let e ← w.deref p
  let s := w.fdset
  match build with
  | .epoll =>
    if s.pollfds.any (fun x => x.fd = e.sock) then
      some { w with fdset := { s with pollfds := s.pollfds.eraseP (fun x => x.fd = e.sock) } }
    else none
  | .poll =>
    let idx := s.fdsIdx p
    let last ← s.pollfds.getLast?
    let q ← poolConnEndByFd w last.fd
    if idx < s.fdMax then
      some { w with fdset := { s with
        pollfds := swapRemove s.pollfds idx
        fdsIdx := Function.update s.fdsIdx q idx } }
    else none

def poolFdsSetEvents (w : World) (p : EndPtr) : Option World := do
  let e ← w.deref p
  let s := w.fdset
  match build with
  | .epoll =>
    if s.pollfds.any (fun x => x.fd = e.sock) then
      some { w with fdset := { s with pollfds := s.pollfds.map fun x =>
        if x.fd = e.sock then { x with events := e.events } else x } }
    else none
  | .poll =>
    let idx := s.fdsIdx p
    if idx < s.fdMax then
      let pollfds := s.pollfds.modify idx fun x => { x with events := e.events }
      some { w with fdset := { s with pollfds := pollfds } }
    else none

def poolSetConnEnd (w : World) (end1 end2 : EndPtr) : Option World := do
  let e ← w.deref end1
  let event := if e.kind = .incomplete then poolFdWrite else poolFdRead
  let w ← poolFdsAdd build w end1 e.sock event
  let w := w.store end1 { e with events := event }
  some { w with routeMap := Function.update w.routeMap e.sock (some end2) }

def poolResetConnEnd (w : World) (p : EndPtr) (cl : Bool) : Option World := do
  let w ← poolFdsDel build w p
  let e ← w.deref p
  let w := if cl then w.close e.sock else w
  some { w with routeMap := Function.update w.routeMap e.sock none }

/-- The two ends of the connection that `fd` belongs to, and whether to do full
cleanup. -/
def poolRemoveEnds (w : World) (fd : Fd) : Option (EndPtr × EndPtr × Bool) := do
  let p ← w.routeMap fd
  let e ← w.deref p
  if e.kind ≠ .client then
    some (⟨p.block, p.off - poolEndSize⟩, p, true)
  else
    let q := ⟨p.block, p.off + poolEndSize⟩
    let d ← w.deref q
    some (p, q, d.kind ≠ .incomplete)

def poolRemoveConn (w : World) (fd : Fd) (notifyRouter : Bool) : Option World := do
  let (incEnd, dstEnd, full) ← poolRemoveEnds w fd
  let w := { w with
    nConns := w.nConns - 1
    stats := { w.stats with connsClosed := w.stats.connsClosed + 1 } }
  let w ← poolResetConnEnd build w dstEnd true
  if full then
    let w ← poolResetConnEnd build w incEnd true
    let d ← w.deref dstEnd
    -- `time (NULL)` is not read when no failure is reported
    let w := if notifyRouter then
        { w with router := glbRouterDisconnect cnf 0 w.router d.addr false } else w
    some (w.free incEnd.block)
  else poolResetConnEnd build w incEnd false

/-- What `glb_socket_create` and `connect` answer in `pool_handle_async_conn`:
an error that is not zero, or a new descriptor with the error (zero for none)
that `connect` left. -/
inductive AsyncOut where
  | noSocket (errno : Int)
  | socket (fd : Fd) (error : Int)
  deriving DecidableEq, Repr

/-- The kernel hands out positive descriptors that are not open. -/
def AsyncOut.ok (w : World) : AsyncOut → Bool
  | .noSocket errno => 0 < errno
  | .socket fd _ => 0 < fd && !w.isOpen fd

def poolHandleAsyncConn (w : World) (p : EndPtr) (out : AsyncOut) : Option (World × Int) := do
  let d ← w.deref p
  if !out.ok w then none
  else
    match out with
    | .noSocket errno => some (w.store p { d with sock := -errno }, errno)
    | .socket fd error =>
      let w := { w with isOpen := Function.update w.isOpen fd true }
      let w := w.store p { d with sock := fd }
      if error ≠ EINPROGRESS ∧ error ≠ 0 then some (w.close fd, error) else some (w, 0)

/-- `pool_handle_add_conn`; `now` is the clock of the failure report. -/
def poolHandleAddConn (w : World) (block : Nat) (out : AsyncOut) (now : Int) : Option World := do
  let d ← w.deref (dstPtr block)
  let (w, error) ← (if d.sock < 0 then poolHandleAsyncConn w (dstPtr block) out else some (w, 0))
  if error ≠ 0 then
    let i ← w.deref (incPtr block)
    let w := { w with router := glbRouterDisconnect cnf now w.router d.addr true }
    some ((w.close i.sock).free block)
  else
    let w ← poolSetConnEnd build w (incPtr block) (dstPtr block)
    let w ← poolSetConnEnd build w (dstPtr block) (incPtr block)
    some { w with
      nConns := w.nConns + 1
      stats := { w.stats with connsOpened := w.stats.connsOpened + 1 } }

/-- `pool_conn_end_dstaddr`: the result is an address inside, or in front of, the
block of its argument. -/
def poolConnEndDstaddr (w : World) (p : EndPtr) : Option EndPtr := do
  let e ← w.deref p
  some ⟨p.block, (if e.kind = .client then p.off else p.off - poolEndSize) - sizeofSockaddr⟩

/-- The address read through a pointer. `hdr` tells what the allocator keeps in
the bytes in front of a block. -/
def World.readAddr (w : World) (hdr : Nat → SockAddr) (p : EndPtr) : Option SockAddr :=
  if p.off = -sizeofSockaddr then some (hdr p.block) else (w.deref p).map ConnEnd.addr

/-- The scans of `route_map` for connections to remove, from `fd` on. The source
has no bound on `fd`; past the end of the map it reads what is not there. -/
def scanLoop (hit : World → EndPtr → Option Bool) : Nat → Nat → Int → World → Option World
  | 0, _, count, w => if count = 0 then some w else none
  | n + 1, fd, count, w =>
    if count = 0 then some w
    else
      match w.routeMap fd with
      | none => scanLoop hit n (fd + 1) count w
      | some p => do
        let h ← hit w p
        if h then
          let w ← poolRemoveConn build cnf w fd false
          scanLoop hit n (fd + 1) (count - 2) w
        else scanLoop hit n (fd + 1) (count - 1) w

def poolHandleDropDst (hdr : Nat → SockAddr) (w : World) (dst : SockAddr) : Option World :=
  scanLoop build cnf (fun w p => do
    let q ← poolConnEndDstaddr w p
    let a ← w.readAddr hdr q
    some (glbSockaddrIsEqual dst a)) poolMaxFd 0 (w.fdset.fdMax - 1 : Int) w

/-- `pool_handle_stats`; the second component is what the sender's statistics
grow by. -/
def poolHandleStats (w : World) : World × Stats :=
  let stats := { w.stats with nConns := w.nConns }
  ({ w with stats := glbZeroStats }, stats)

def poolHandleShutdown (w : World) : Option World := do
  let w ← scanLoop build cnf (fun _ _ => some true) poolMaxFd 0 (w.fdset.fdMax - 1 : Int) w
  let w := w.close w.ctlRecv
  some { w with shutdown := true }

/-- What the handling of one ctl reads from outside. -/
structure CtlEnv where
  async : AsyncOut
  now : Int
  hdr : Nat → SockAddr

/-- `pool_handle_ctl` after the read, before the sender is signalled. -/
def poolHandleCtl (w : World) (ctl : PoolCtl) (env : CtlEnv) : Option (World × Stats) :=
  let w := { w with stats := { w.stats with nPolls := w.stats.nPolls - 1 } }
  match ctl with
  | .addConn block => do
    let w ← poolHandleAddConn build cnf w block env.async env.now
    some (w, glbZeroStats)
  | .dropDst dst => do
    let w ← poolHandleDropDst build cnf env.hdr w dst
    some (w, glbZeroStats)
  | .stats => some (poolHandleStats w)
  | .shutdown => do
    let w ← poolHandleShutdown build cnf w
    some (w, glbZeroStats)

/-- What `send` answers: how many bytes the kernel takes at most, and `errno` for
the case that it takes none. -/
structure SendOut where
  ret : Nat
  errno : Int
  deriving DecidableEq, Repr

/-- What `recv` answers: the bytes that have arrived, none for end of stream, or
an error. -/
inductive RecvOut where
  | data (avail : List UInt8)
  | error (errno : Int)
  deriving DecidableEq, Repr

/-- The errors that `pool_send_data` takes for a full socket buffer. -/
def sendRetries (errno : Int) : Bool :=
  errno = EINTR || errno = EAGAIN || errno = EBUSY || errno = ENOBUFS || errno = ENOTCONN

/-- `dst` after `n` bytes were sent, with the new event mask. -/
def ConnEnd.advance (d : ConnEnd) (n : Nat) : ConnEnd :=
  if d.sent + n = d.total then
    { d with sent := 0, total := 0, events := d.events &&& ~~~poolFdWrite }
  else { d with sent := d.sent + n, events := d.events ||| poolFdWrite }

/-- The common end of `pool_send_data`, with the events it computed for `dst`. -/
def poolSendDone (w : World) (dst : EndPtr) (dstEvents : BitVec 32) : Option World := do
  let w := { w with stats := { w.stats with nSend := w.stats.nSend + 1 } }
  let d ← w.deref dst
  if dstEvents ≠ d.events then
    poolFdsSetEvents build (w.store dst { d with events := dstEvents }) dst
  else some w

/-- The part of `pool_send_data` that turns reading from `src` on again. -/
def poolSendResume (w : World) (dst : EndPtr) (src : Option EndPtr) : Option World :=
  match src with
  | none => some w
  | some src => do
    let d ← w.deref dst
    let s ← w.deref src
    if s.events &&& poolFdRead = 0 ∧ d.total < poolBufSize then
      poolFdsSetEvents build (w.store src { s with events := s.events ||| poolFdRead }) src
    else some w

def poolSendData (w : World) (dst : EndPtr) (src : Option EndPtr) (out : SendOut) :
    Option (World × Int) := do
  let d ← w.deref dst
  let len := d.total - d.sent
  let n := min out.ret len
  let w := { w with log := w.log ++ [.send dst d.sock len (d.pending.take n)] }
  if 0 < n then
    let w := { w with stats := { w.stats with
      sendBytes := w.stats.sendBytes + n
      txBytes := w.stats.txBytes + (if d.kind = PoolEnd.client then (n : Int) else 0) } }
    let d' := d.advance n
    let w := w.store dst { d with sent := d'.sent, total := d'.total }
    let w ← poolSendResume build w dst src
    let w ← poolSendDone build w dst d'.events
    some (w, n)
  else if sendRetries out.errno then
    let w ← poolSendDone build w dst (d.events ||| poolFdWrite)
    some (w, 0)
  else if out.errno = EPIPE then
    if d.kind ≠ .incomplete then
      let w ← poolRemoveConn build cnf w d.sock true
      some (w, -EPIPE)
    else some (w, 0)
  else
    let w ← poolSendDone build w dst d.events
    some (w, -out.errno)

/-- The end of `pool_handle_read` after data was received and offered to `send`. -/
def poolReadDone (w : World) (dst : EndPtr) (n : Nat) : Option World := do
  let d ← w.deref dst
  let w ← (if d.total = poolBufSize then do
      let src ← w.routeMap d.sock
      let s ← w.deref src
      poolFdsSetEvents build (w.store src { s with events := s.events &&& ~~~poolFdRead }) src
    else some w)
  some { w with stats := { w.stats with
    recvBytes := w.stats.recvBytes + n
    rxBytes := w.stats.rxBytes + (if d.kind ≠ PoolEnd.client then (n : Int) else 0) } }

def poolCountRecv (w : World) : World :=
  { w with stats := { w.stats with nRecv := w.stats.nRecv + 1 } }

def poolHandleRead (w : World) (srcFd : Fd) (recv : RecvOut) (send : SendOut) :
    Option (World × Int) := do
  let dst ← w.routeMap srcFd
  let d ← w.deref dst
  if d.total < poolBufSize then
    let len := poolBufSize - d.total
    match recv with
    | .error errno =>
      let w := { w with log := w.log ++ [.recv dst srcFd d.total len []] }
      some (poolCountRecv w, if errno = EAGAIN then -1 else -errno)
    | .data avail =>
      let bytes := avail.take len
      let w := { w with log := w.log ++ [.recv dst srcFd d.total len bytes] }
      if bytes.length = 0 then
        let w ← poolRemoveConn build cnf w srcFd true
        some (poolCountRecv w, -EPIPE)
      else
        let w := w.store dst { d with
          total := d.total + bytes.length
          buf := overwrite d.buf d.total bytes }
        let (w, sendErr) ← poolSendData build cnf w dst none send
        if sendErr = -EPIPE then some (w, sendErr)
        else
          let w ← poolReadDone build w dst bytes.length
          some (poolCountRecv w, bytes.length)
  else some (w, 0)

/-- What the completion of an asynchronous connect reads from outside: `SO_ERROR`,
the clocks of the failure report and of the choice after it, and what the new
attempt meets. -/
structure CompleteEnv where
  soError : Int
  now : Int
  choose : ChooseEnv
  async : AsyncOut
  addNow : Int

def poolHint (inc : ConnEnd) : UInt32 :=
  if cnf.policy.toNat < Policy.source.toNat then 0 else glbSockaddrHash inc.addr

def poolHandleConnComplete (w : World) (dstEnd : EndPtr) (env : CompleteEnv) :
    Option (World × Int) := do
  let d ← w.deref dstEnd
  if env.soError ≠ 0 then
    let incEnd : EndPtr := ⟨dstEnd.block, dstEnd.off - poolEndSize⟩
    let i ← w.deref incEnd
    let (router, addr) := glbRouterChooseDstAgain cnf env.now env.choose w.router (poolHint cnf i) d.addr
    let w := { w with router := router }
    match addr with
    | some addr =>
      let w := w.store dstEnd { d with addr := addr }
      let w ← poolRemoveConn build cnf w d.sock false
      let d ← w.deref dstEnd
      let w := w.store dstEnd { d with sock := -1 }
      let w ← poolHandleAddConn build cnf w incEnd.block env.async env.addNow
      some (w, env.soError)
    | none =>
      let w := w.store dstEnd { d with kind := .complete }
      let w ← poolRemoveConn build cnf w d.sock false
      some (w, env.soError)
  else
    let w := w.store dstEnd { d with kind := .complete, events := poolFdRead }
    let w ← poolFdsSetEvents build w dstEnd
    some (w, 0)

def poolHandleWrite (w : World) (dstFd : Fd) (env : CompleteEnv) (send : SendOut) :
    Option World := do
  let src ← w.routeMap dstFd
  let s ← w.deref src
  let dst ← w.routeMap s.sock
  let d ← w.deref dst
  let (w, failed) ← (if d.kind = .incomplete then poolHandleConnComplete build cnf w dst env
    else some (w, 0))
  if failed ≠ 0 then some w
  else
    let d ← w.deref dst
    if d.total ≠ 0 then
      let (w, _) ← poolSendData build cnf w dst (some src) send
      some w
    else some w

end handlers

end Glb
