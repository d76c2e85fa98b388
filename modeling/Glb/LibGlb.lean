import Glb.RouterThreads
import Glb.Parse

namespace Glb

/- `glb_router.c` as it is built into the library. Without `GLBD` its records have neither
`conns` nor `usage`; the two fields of the model stay as they are here and nothing reads
them. What does not touch them is what the daemon has. -/

section router
variable (cnf : Cnf)

def libNewDst (dst : Dst) (probeCtx : Option CtxId) (timeNow : Int) : RouterDst where
  dst := dst
  probeCtx := probeCtx
  usage := 0
  map := 0
  checked := timeNow
  failed := 0
  conns := 0

def libRemoveDst (r : Router) (i : Nat) : Router :=
  let dst := Lib.SwapRemove.swapRemove r.dst i
  { r with
    topDst := none
    dst := dst
    rrbNext := if dst.length = 0 then 0 else r.rrbNext % dst.length }

def libSetWeight (r : Router) (i : Nat) (weight : ℚ) : Router :=
  { r with dst := r.dst.modify i (fun d => { d with dst := { d.dst with weight := weight } }) }

/-- `glb_router_change_dst` after the wait for connecting threads. -/
def libApplyChange (env : ChangeEnv) (r : Router) (dst : Dst) (probeCtx : Option CtxId)
    (found : Option Nat) : Router × Int :=
  match found with
  | none =>
    if env.realloc then
      (routerRedo cnf env.now (routerAddDst r (libNewDst dst probeCtx env.timeNow)), r.dst.length)
    else (routerRedo cnf env.now r, -ENOMEM)
  | some i =>
    match r.dst[i]? with
    | none => (r, i)
    | some d =>
      if dst.weight < 0 then
        let r := libRemoveDst r i
        (routerRedo cnf env.now r, if !env.realloc && r.dst.length > 0 then -ENOMEM else i)
      else if d.dst.weight ≠ dst.weight then
        (routerRedo cnf env.now (libSetWeight r i dst.weight), i)
      else (r, i)

def libRouterChangeDst (env : ChangeEnv) (r : Router) (dst : Dst) (probeCtx : Option CtxId) : Router × Int :=
  let found := routerFindDst r dst
  if found.isNone && dst.weight < 0 then (r, -ENONET)
  else libApplyChange cnf env r dst probeCtx found

/-- `router_choose_dst`. The policy that goes by usage has no code here. -/
def libChooseDst (env : ChooseEnv) (r : Router) (hint : UInt32) : Router × Option Nat :=
  let r := routerUpdateCtx cnf env.now r
  let r := routerExpireTop cnf r
  match cnf.policy with
  | .least => (r, none)
  | .round => routerChooseDstRound cnf env r
  | .single => (r, routerChooseDstSingle r)
  | .random => routerChooseDstHint cnf env r (routerRandomHint env.rand)
  | .source => routerChooseDstHint cnf env r hint

def libConnectStart (env : ChooseEnv) (r : Router) (hint : UInt32) : Router × Option Nat :=
  libChooseDst cnf env { r with busyCount := r.busyCount + 1 } hint

def libConnectRetry (now : Int) (env : ChooseEnv) (r : Router) (hint : UInt32) (dst : Nat) :
    Router × Option Nat :=
  libChooseDst cnf env (routerDstFailed cnf now r dst) hint

end router

/-- The file status flag that makes a socket's calls return at once. -/
def oNonblock : BitVec 32 := 0x800

/-- Where a thread of the application is with its call of `connect ()`. Inside the real call
for a destination, it has the descriptor with the flags it found on it, the hint, the
index of the destination and the address it read there. -/
inductive LibPc where
  | out
  | dialling (fd : Fd) (origFlags : BitVec 32) (hint : UInt32) (dst : Nat) (peer : SockAddr)
  | returned (ret errno : Int) (peer : Option SockAddr)
  deriving DecidableEq, Repr

/-- Whether a thread is between two calls. -/
def LibPc.idle : LibPc → Bool
  | .dialling _ _ _ _ _ => false
  | _ => true

/-- The socket that a thread is connecting. -/
def LibPc.socket : LibPc → Option Fd
  | .dialling fd _ _ _ _ => some fd
  | _ => none

/-- A process with the library: the router and its seed, the flags of its sockets (none for
what is not a descriptor) and the threads that connect. -/
structure LibProc where
  router : Router
  seed : UInt32
  flags : Fd → Option (BitVec 32)
  threads : List LibPc

namespace LibProc

/-- Before `glb_init` lists the destinations. -/
def init (n : Nat) (seed : UInt32) (flags : Fd → Option (BitVec 32)) : LibProc :=
  ⟨Router.init, seed, flags, List.replicate n .out⟩

def goto (s : LibProc) (id : Nat) (pc : LibPc) : LibProc := { s with threads := s.threads.set id pc }

def setfl (s : LibProc) (fd : Fd) (flags : BitVec 32) : LibProc :=
  { s with flags := Function.update s.flags fd (some flags) }

end LibProc

/-- Whether a call of the application is about the address to balance. -/
def glbMatchAddress (incAddr addr : SockAddr) : Bool :=
  addr.sinFamily = AF_INET && addr.sinPort = incAddr.sinPort && addr.sinAddr = incAddr.sinAddr

section steps
variable (cnf : Cnf) (incAddr : SockAddr)

/-- The seed after a choice: `rand_r` moves it on where the policy is random. -/
def libSeed (seed next : UInt32) : UInt32 := if cnf.policy = .random then next else seed

/-- The flags while the connection is made. -/
def blockFlags (origFlags : BitVec 32) : BitVec 32 := origFlags &&& ~~~oNonblock

/-- What `glb_router_connect` returns and leaves in `errno`, for a socket with these flags
and with `error` what the loop of `router_connect_dst` has left. -/
def libCode (origFlags : BitVec 32) (error : Int) : Int × Int :=
  if error ≠ 0 then (-1, error)
  else if origFlags = blockFlags origFlags then (0, 0)
  else (-1, EINPROGRESS)

/-- The end of `router_connect_dst` and of `glb_router_connect`. -/
def libReturn (s : LibProc) (id : Nat) (fd : Fd) (origFlags : BitVec 32) (error : Int)
    (peer : Option SockAddr) : LibProc :=
  let s := { s with router := routerConnectEnd s.router }
  let s := if origFlags ≠ blockFlags origFlags then s.setfl fd origFlags else s
  let (ret, errno) := libCode origFlags error
  s.goto id (.returned ret errno peer)

/-- The loop of `router_connect_dst` at its condition: the choice `ret` was made, and `error` is
what the attempt before left. -/
def libLoop (s : LibProc) (id : Nat) (fd : Fd) (origFlags : BitVec 32) (hint : UInt32) (error : Int)
    (ret : Option Nat) : LibProc :=
  match ret.bind (fun i => (s.router.addrAt (some i)).map fun a => (i, a)) with
  | some (i, peer) => s.goto id (.dialling fd origFlags hint i peer)
  | none => libReturn s id fd origFlags error none

/-- `connect ()` by a thread that is not inside one. `real` is what the C library's own
answers, for an address that is not balanced; `badf` what `fcntl ()` leaves in `errno`
for a bad descriptor. -/
def libConnect (s : LibProc) (id : Nat) (fd : Fd) (addr : SockAddr) (env : ChooseEnv) (next : UInt32)
    (real : Int × Int) (badf : Int) : Option LibProc :=
  match s.threads[id]? with
  | none => none
  | some pc =>
    if !pc.idle then none
    else if !glbMatchAddress incAddr addr then some (s.goto id (.returned real.1 real.2 (some addr)))
    else
      match s.flags fd with
      | none => some (s.goto id (.returned (-1) badf none))
      | some origFlags =>
        let blocking := if origFlags ≠ blockFlags origFlags then s.setfl fd (blockFlags origFlags) else s
        let (r, ret) := libConnectStart cnf env s.router s.seed
        some (libLoop { blocking with router := r, seed := libSeed cnf s.seed next } id fd origFlags s.seed EHOSTDOWN ret)

/-- The real `connect ()` to a destination came back with `error`, zero for success. -/
def libConnected (s : LibProc) (id : Nat) (error now : Int) (env : ChooseEnv) (next : UInt32) : Option LibProc :=
  match s.threads[id]? with
  | some (.dialling fd origFlags hint i peer) =>
    if error ≠ 0 ∧ error ≠ EINPROGRESS then
      let (r, ret) := libConnectRetry cnf now env s.router hint i
      let s := { s with router := r, seed := libSeed cnf s.seed next }
      some (libLoop s id fd origFlags hint error ret)
    else some (libReturn s id fd origFlags error (some peer))
  | _ => none

/-- One step of a thread. The control thread or the watchdog changes a destination, which
waits for connecting threads where it has to; the application sets the flags of a
socket. -/
inductive LibOp where
  | connect (id : Nat) (fd : Fd) (addr : SockAddr) (env : ChooseEnv) (next : UInt32) (real : Int × Int) (badf : Int)
  | connected (id : Nat) (error now : Int) (env : ChooseEnv) (next : UInt32)
  | change (env : ChangeEnv) (dst : Dst) (probeCtx : Option CtxId)
  | setfl (fd : Fd) (flags : BitVec 32)

def libStep (s : LibProc) : LibOp → Option LibProc
  | .connect id fd addr env next real badf => libConnect cnf incAddr s id fd addr env next real badf
  | .connected id error now env next => libConnected cnf s id error now env next
  | .change env dst probeCtx =>
    if routerChangeWaits s.router dst then none
    else some { s with router := (libRouterChangeDst cnf env s.router dst probeCtx).1 }
  | .setfl fd flags => some (s.setfl fd flags)

end steps

end Glb
