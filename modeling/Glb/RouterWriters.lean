import Glb.RouterThreads

namespace Glb

/-- A call of `glb_router_change_dst` that waits, with the `d` that it searched for
before. -/
structure ChangeCall where
  dst : Dst
  probeCtx : Option CtxId
  found : Option DstPtr
  deriving DecidableEq, Repr

/-- Where a thread is in `glb_router_change_dst`: outside, blocked on `router->free`,
or woken up without having the lock yet. -/
inductive WriterPc where
  | out
  | blocked (call : ChangeCall)
  | woken (call : ChangeCall)
  deriving DecidableEq, Repr

/-- A thread between the two updates of `wait_count`. -/
def WriterPc.waits : WriterPc → Bool
  | .out => false
  | _ => true

def WriterPc.isBlocked : WriterPc → Bool
  | .blocked _ => true
  | _ => false

/-- The router with any number of threads that change its table. The one `changer`
of `sys` is not used. -/
structure RouterWriters where
  sys : RouterSys
  writers : List WriterPc
  deriving DecidableEq, Repr

namespace RouterWriters

/-- `n` connecting threads and `m` that change the table. -/
def init (n m : Nat) : RouterWriters := ⟨RouterSys.init n, List.replicate m .out⟩

def goto (s : RouterWriters) (id : Nat) (pc : WriterPc) : RouterWriters :=
  { s with writers := s.writers.set id pc }

/-- `d` as the search for a destination would set it now. -/
def lookup (s : RouterWriters) (dst : Dst) : Option DstPtr :=
  (routerFindDst s.sys.router dst).map (DstPtr.mk s.sys.base)

/-- `pthread_cond_signal`, with the thread that it wakes up. -/
def signal (s : RouterWriters) : Option Nat → Option RouterWriters
  | none => if s.writers.any WriterPc.isBlocked then none else some s
  | some id =>
    match s.writers[id]? with
    | some (.blocked call) => some (s.goto id (.woken call))
    | _ => none

def signalIf (s : RouterWriters) (cond : Bool) (wake : Option Nat) : Option RouterWriters :=
  if cond then s.signal wake else some s

/-- The end of `glb_router_change_dst`. `realloc` may leave the array where it is,
unless nothing is left of it. -/
def returns (s : RouterWriters) (id : Nat) (env : ChangeEnv) (moved : Bool) (wake : Option Nat)
    (r : Router) : Option RouterWriters :=
  let sys := { s.sys with
    router := r
    base := if arrayMoved env s.sys.router r && (moved || r.dst.length = 0) then s.sys.base + 1
      else s.sys.base }
  signalIf ⟨sys, s.writers.set id .out⟩ (r.waitCount > 0) wake

end RouterWriters

/-- One piece of code that runs with the lock held. `spurious` is a return from
`pthread_cond_wait` without a signal. `wake` is the thread that a signal, if there is
one, reaches. -/
inductive WriterOp where
  | change (id : Nat) (env : ChangeEnv) (moved : Bool) (dst : Dst) (probeCtx : Option CtxId)
    (wake : Option Nat)
  | resume (id : Nat) (env : ChangeEnv) (moved : Bool) (wake : Option Nat)
  | spurious (id : Nat)
  | other (op : SysOp) (wake : Option Nat)

/-- Whether the step is one of the single changer's. -/
def SysOp.changes : SysOp → Bool
  | .change _ _ _ => true
  | .wake _ => true
  | _ => false

/-- Whether the step, which led to `s`, was the last of `router_connect_dst`. -/
def connectLeft (s : RouterSys) : SysOp → Bool
  | .connect id _ _ => s.threads[id]?.any ConnectPc.idle
  | .connected id _ _ _ => s.threads[id]?.any ConnectPc.idle
  | _ => false

section steps
variable (cnf : Cnf) (s : RouterWriters)

def writerChange (id : Nat) (env : ChangeEnv) (moved : Bool) (dst : Dst) (probeCtx : Option CtxId)
    (wake : Option Nat) : Option RouterWriters :=
  match s.writers[id]? with
  | some .out =>
    let r := s.sys.router
    if routerChangeWaits r dst then
      some ⟨{ s.sys with router := { r with waitCount := r.waitCount + 1 } },
        s.writers.set id (.blocked ⟨dst, probeCtx, s.lookup dst⟩)⟩
    else s.returns id env moved wake (glbRouterChangeDst cnf env r dst probeCtx).1
  | _ => none

/-- What a thread does after its wait with the `d` from before it. There is nothing to
say about a `d` that leads out of the array. -/
def writerApply (env : ChangeEnv) (r : Router) (call : ChangeCall) : Option Router :=
  match call.found with
  | none => some (routerApplyChange cnf env r call.dst call.probeCtx none).1
  | some p =>
    (s.sys.slot p).map fun _ => (routerApplyChange cnf env r call.dst call.probeCtx (some p.idx)).1

/-- The loop around `pthread_cond_wait` and what follows it. -/
def writerResume (id : Nat) (env : ChangeEnv) (moved : Bool) (wake : Option Nat) : Option RouterWriters :=
  match s.writers[id]? with
  | some (.woken call) =>
    let r := s.sys.router
    if r.busyCount > 0 then some (s.goto id (.blocked call))
    else (writerApply cnf s env { r with waitCount := r.waitCount - 1 } call).bind
      (s.returns id env moved wake)
  | _ => none

def writerOther (op : SysOp) (wake : Option Nat) : Option RouterWriters :=
  if op.changes then none
  else (sysStep cnf s.sys op).bind fun sys =>
    RouterWriters.signalIf { s with sys := sys }
      (connectLeft sys op && sys.router.busyCount = 0 && sys.router.waitCount > 0) wake

def writersStep : WriterOp → Option RouterWriters
  | .change id env moved dst probeCtx wake => writerChange cnf s id env moved dst probeCtx wake
  | .resume id env moved wake => writerResume cnf s id env moved wake
  | .spurious id =>
    match s.writers[id]? with
    | some (.blocked call) => some (s.goto id (.woken call))
    | _ => none
  | .other op wake => writerOther cnf s op wake

/-- The call from which a step returns, as a call of its own. -/
def finished : WriterOp → Option RouterOp
  | .change _ env _ dst probeCtx _ =>
    if routerChangeWaits s.sys.router dst then none else some (.change env dst probeCtx)
  | .resume id env _ _ =>
    match s.writers[id]? with
    | some (.woken call) =>
      if s.sys.router.busyCount > 0 then none else some (.change env call.dst call.probeCtx)
    | _ => none
  | _ => none

end steps

/-- The threads together with the calls of `glb_router_change_dst` that have returned, in
this order. -/
def returnStep (cnf : Cnf) (x : RouterWriters × List RouterOp) (op : WriterOp) :
    Option (RouterWriters × List RouterOp) :=
  (writersStep cnf x.1 op).map fun s => (s, x.2 ++ (finished x.1 op).toList)

end Glb
