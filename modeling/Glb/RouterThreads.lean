import Glb.Daemon

namespace Glb

/-- A pointer into the array of destinations: which allocation of the array, and
the index. -/
structure DstPtr where
  base : Nat
  idx : Nat
  deriving DecidableEq, Repr

/-- Where a thread is in `router_connect_dst`. `chose` is the address that was
counted when the destination was chosen, for which the code has no variable; `peer`
is what `connect ()` found in the slot. -/
inductive ConnectPc where
  | out
  | holding (dst : DstPtr) (hint : UInt32) (chose : Option SockAddr)
  | dialled (dst : DstPtr) (hint : UInt32) (chose : Option SockAddr) (peer : SockAddr)
  | done (addr peer : SockAddr)
  deriving DecidableEq, Repr

/-- Whether a thread is between two calls. -/
def ConnectPc.idle : ConnectPc → Bool
  | .out => true
  | .done _ _ => true
  | _ => false

/-- The one thread that changes the table: outside, or waiting for connecting
threads with the result of its search. -/
inductive ChangePc where
  | out
  | waiting (dst : Dst) (probeCtx : Option CtxId) (found : Option Nat)
  deriving DecidableEq, Repr

/-- The router with the threads that give its lock back in the middle of a call. -/
structure RouterSys where
  router : Router
  base : Nat
  changer : ChangePc
  threads : List ConnectPc
  deriving DecidableEq, Repr

namespace RouterSys

def init (n : Nat) : RouterSys := ⟨Router.init, 0, .out, List.replicate n .out⟩

/-- The destination behind a pointer, if the array is still where it was. -/
def slot (s : RouterSys) (p : DstPtr) : Option RouterDst :=
  if p.base = s.base then s.router.dst[p.idx]? else none

def goto (s : RouterSys) (id : Nat) (pc : ConnectPc) : RouterSys :=
  { s with threads := s.threads.set id pc }

/-- The thread goes on with the destination at index `i` of the router `r`. -/
def hold (s : RouterSys) (id : Nat) (r : Router) (hint : UInt32) (i : Nat) : RouterSys :=
  { s.goto id (.holding ⟨s.base, i⟩ hint (r.addrAt (some i))) with router := r }

end RouterSys

/-- Whether `realloc` gave the array a new place. -/
def arrayMoved (env : ChangeEnv) (r r' : Router) : Bool :=
  r'.dst.length ≠ r.dst.length && (env.realloc || r'.dst.length = 0)

/-- The end of `glb_router_change_dst`. -/
def RouterSys.changed (s : RouterSys) (env : ChangeEnv) (r : Router) : RouterSys :=
  { s with
    router := r
    base := if arrayMoved env s.router r then s.base + 1 else s.base
    changer := .out }

/-- One piece of code that runs with the lock held, or the unlocked read of
`connect ()`. `wake` is a return from `pthread_cond_wait`, which may come without a
signal. -/
inductive SysOp where
  | change (env : ChangeEnv) (dst : Dst) (probeCtx : Option CtxId)
  | wake (env : ChangeEnv)
  | choose (env : ChooseEnv) (hint : UInt32)
  | disconnect (now : Int) (dst : SockAddr) (failed : Bool)
  | chooseAgain (now : Int) (env : ChooseEnv) (hint : UInt32) (dst : SockAddr)
  | connect (id : Nat) (env : ChooseEnv) (hint : UInt32)
  | dial (id : Nat)
  | connected (id : Nat) (error now : Int) (env : ChooseEnv)

/-- What `router_connect_dst` returns after `connect ()` came back with these errors,
zero for success. -/
def connectCode (errors : List Int) : Int := -(errors.getLast?.getD EHOSTDOWN)

section steps
variable (cnf : Cnf) (s : RouterSys)

def sysChange (env : ChangeEnv) (dst : Dst) (probeCtx : Option CtxId) : Option RouterSys :=
  match s.changer with
  | .waiting _ _ _ => none
  | .out =>
    if routerChangeWaits s.router dst then
      some { s with
        router := { s.router with waitCount := s.router.waitCount + 1 }
        changer := .waiting dst probeCtx (routerFindDst s.router dst) }
    else some (s.changed env (glbRouterChangeDst cnf env s.router dst probeCtx).1)

/-- The loop around `pthread_cond_wait` and what follows it. -/
def sysWake (env : ChangeEnv) : Option RouterSys :=
  match s.changer with
  | .out => none
  | .waiting dst probeCtx found =>
    if s.router.busyCount > 0 then some s
    else
      let r := { s.router with waitCount := s.router.waitCount - 1 }
      some (s.changed env (routerApplyChange cnf env r dst probeCtx found).1)

def sysConnect (id : Nat) (env : ChooseEnv) (hint : UInt32) : Option RouterSys :=
  match s.threads[id]? with
  | none => none
  | some pc =>
    if pc.idle then
      match routerConnectStart cnf env s.router hint with
      | (r, some i) => some (s.hold id r hint i)
      | (r, none) => some { s.goto id .out with router := routerConnectEnd r }
    else none

def sysDial (id : Nat) : Option RouterSys :=
  match s.threads[id]? with
  | some (.holding p hint chose) =>
    match s.slot p with
    | some d => some (s.goto id (.dialled p hint chose d.dst.addr))
    | none => none
  | _ => none

def sysConnected (id : Nat) (error now : Int) (env : ChooseEnv) : Option RouterSys :=
  match s.threads[id]? with
  | some (.dialled p hint _ peer) =>
    match s.slot p with
    | none => none
    | some d =>
      if error ≠ 0 ∧ error ≠ EINPROGRESS then
        match routerConnectRetry cnf now env s.router hint p.idx with
        | (r, some i) => some (s.hold id r hint i)
        | (r, none) => some { s.goto id .out with router := routerConnectEnd r }
      else some { s.goto id (.done d.dst.addr peer) with router := routerConnectEnd s.router }
  | _ => none

def sysStep : SysOp → Option RouterSys
  | .change env dst probeCtx => sysChange cnf s env dst probeCtx
  | .wake env => sysWake cnf s env
  | .choose env hint => some { s with router := (glbRouterChooseDst cnf env s.router hint).1 }
  | .disconnect now dst failed => some { s with router := glbRouterDisconnect cnf now s.router dst failed }
  | .chooseAgain now env hint dst =>
    some { s with router := (glbRouterChooseDstAgain cnf now env s.router hint dst).1 }
  | .connect id env hint => sysConnect cnf s id env hint
  | .dial id => sysDial s id
  | .connected id error now env => sysConnected cnf s id error now env

end steps

/-- The single listener with the router: the one thread of `sys` is the listener's,
and `admitted` is the hint of a client that passed the limit and has no
destination yet. -/
structure LimitSys where
  sys : RouterSys
  admitted : Option UInt32
  deriving DecidableEq, Repr

def LimitSys.init : LimitSys := ⟨RouterSys.init 1, none⟩

/-- Whether the listener may take the next client. -/
def LimitSys.ready (s : LimitSys) : Bool :=
  s.admitted.isNone && s.sys.threads.all ConnectPc.idle

/-- The pieces of `glb_router_connect`: the unlocked test of the limit, the return
when no socket can be made, and the choice of either mode. `other` is a step of
another thread, or of the listener inside `router_connect_dst`. -/
inductive LimitOp where
  | test (addr : SockAddr)
  | noSocket
  | choose (env : ChooseEnv)
  | connect (env : ChooseEnv)
  | other (op : SysOp)

/-- Whether a step belongs to `glb_router_connect` before the first `connect ()`. -/
def SysOp.admits : SysOp → Bool
  | .choose _ _ => true
  | .connect _ _ _ => true
  | _ => false

def limitStep (cnf : Cnf) (s : LimitSys) : LimitOp → Option LimitSys
  | .test addr =>
    if !s.ready then none
    else if s.sys.router.conns ≥ cnf.maxConn then some s
    else some { s with admitted := some (connectHint cnf addr) }
  | .noSocket => if cnf.synchronous && s.admitted.isSome then some { s with admitted := none } else none
  | .choose env =>
    match s.admitted with
    | none => none
    | some hint =>
      if cnf.synchronous then none
      else (sysStep cnf s.sys (.choose env hint)).map fun sys => ⟨sys, none⟩
  | .connect env =>
    match s.admitted with
    | none => none
    | some hint =>
      if cnf.synchronous then (sysStep cnf s.sys (.connect 0 env hint)).map fun sys => ⟨sys, none⟩
      else none
  | .other op =>
    if op.admits then none else (sysStep cnf s.sys op).map fun sys => { s with sys := sys }

end Glb
