import Glb.Base
import Glb.Lib.SwapRemove

namespace Glb
open Lib.SwapRemove

/-- `GLB_DBL_EPSILON`, twice the spacing of doubles at one. -/
def glbDblEpsilon : ℚ := 1 / 2 ^ 51

/-- Identity of a `glb_backend_thread_ctx_t`. -/
abbrev CtxId := Nat

structure RouterCtx where
  minWeight : ℚ
  retry : Int
  now : Int
  deriving DecidableEq, Repr

structure RouterDst where
  dst : Dst
  probeCtx : Option CtxId
  usage : ℚ
  map : ℚ
  checked : Int
  failed : Int
  conns : Int
  deriving DecidableEq, Repr

/-- `struct glb_router`. `dst` stands for the array together with `n_dst`,
and `topDst` for the pointer into it. The state of `rand_r` is not kept: each
choice is handed the number that `rand_r` returned. -/
structure Router where
  ctx : RouterCtx
  busyCount : Int
  waitCount : Int
  conns : Int
  rrbNext : Nat
  mapFailed : Int
  topFailed : Int
  topDst : Option Nat
  dst : List RouterDst
  deriving DecidableEq, Repr

/-- The zeroed structure that `glb_router_create` starts from. -/
def Router.init : Router where
  ctx := ⟨0, 0, 0⟩
  busyCount := 0
  waitCount := 0
  conns := 0
  rrbNext := 0
  mapFailed := 0
  topFailed := 0
  topDst := none
  dst := []

def routerDivProt : ℚ := 1 / 10 ^ 9

def routerRetryInterval (cnf : Cnf) : Int := glbTimeApproxSeconds cnf.interval + 1

/-- What the environment answers while one destination gets its extra check:
`glb_time_now ()`, the probe's verdict and timestamp, and the `time (NULL)`
that a failed probe stores. -/
structure Check where
  now : Int
  ready : Bool
  timestamp : Int
  time : Int
  deriving DecidableEq, Repr

def routerDstProbe (d : RouterDst) (c : Check) : RouterDst × Bool :=
  if c.ready then ({ d with checked := c.timestamp }, true)
  else ({ d with failed := c.time }, false)

def routerDstIsGoodBase (d : RouterDst) (now retry : Int) : Bool :=
  now - d.failed > retry

def routerDstIsGood (d : RouterDst) (minWeight : ℚ) (now retry : Int) : Bool :=
  d.dst.weight ≥ minWeight && routerDstIsGoodBase d now retry

/-- The destination `top_dst` points to. -/
def Router.top (r : Router) : Option RouterDst := r.topDst.bind (fun i => r.dst[i]?)

def routerTopDstIsGood (r : Router) : Bool :=
  match r.top with
  | none => false
  | some d => d.dst.weight ≥ glbDblEpsilon && routerDstIsGoodBase d r.ctx.now r.ctx.retry

def routerMinWeight (r : Router) : ℚ :=
  match r.top with
  | none => glbDblEpsilon
  | some d => if routerTopDstIsGood r then d.dst.weight else glbDblEpsilon

def routerUpdateCtx (cnf : Cnf) (now : Int) (r : Router) : Router :=
  let r := { r with ctx := { r.ctx with now := now, retry := routerRetryInterval cnf } }
  { r with ctx := { r.ctx with minWeight := routerMinWeight r } }

def routerUsesMap (cnf : Cnf) : Bool := cnf.policy.toNat ≥ Policy.random.toNat

def redoTopFactor : ℚ := 1 + glbDblEpsilon

/-- The loop of `router_redo_top` from index `i` on, with `top_dst` and
`ctx.min_weight` as the loop leaves them. -/
def redoTopLoop (now retry : Int) : List RouterDst → Nat → Option Nat × ℚ → Option Nat × ℚ
  | [], _, acc => acc
  | d :: ds, i, (top, minWeight) =>
    if routerDstIsGood d (minWeight * redoTopFactor) now retry then
      redoTopLoop now retry ds (i + 1) (some i, d.dst.weight)
    else redoTopLoop now retry ds (i + 1) (top, minWeight)

def routerRedoTop (r : Router) : Router :=
  let (top, minWeight) := redoTopLoop r.ctx.now r.ctx.retry r.dst 0 (r.topDst, r.ctx.minWeight)
  { r with topDst := top, ctx := { r.ctx with minWeight := minWeight } }

/-- Pass 1 of `router_redo_map` at one destination. -/
def redoMapWeigh (ctx : RouterCtx) (d : RouterDst) : RouterDst :=
  { d with map := if routerDstIsGood d ctx.minWeight ctx.now ctx.retry then d.dst.weight else 0 }

/-- Pass 2 of `router_redo_map`, with `m` the end of the interval before. -/
def redoMapNormalize (total : ℚ) : ℚ → List RouterDst → List RouterDst
  | _, [] => []
  | m, d :: ds =>
    let m := d.map / total + m
    { d with map := m } :: redoMapNormalize total m ds

def routerRedoMap (r : Router) : Router :=
  let dst := r.dst.map (redoMapWeigh r.ctx)
  -- a destination that is not good adds its zero map here, the source skips it
  let total := (dst.map RouterDst.map).sum
  if total = 0 then { r with dst := dst }
  else { r with dst := redoMapNormalize total 0 dst }

/-- `router_dst_usage`. A count of -1, which makes it infinite in the code, makes it zero
here. -/
def routerDstUsage (d : RouterDst) : ℚ := d.dst.weight / (d.conns + 1 : Int)

/-- What `glb_router_change_dst` reads from outside: `time (NULL)`,
`glb_time_now ()` and whether `realloc` returned memory. -/
structure ChangeEnv where
  now : Int
  timeNow : Int
  realloc : Bool
  deriving DecidableEq, Repr

/-- The search loop that opens `glb_router_change_dst`. -/
def routerFindDst (r : Router) (dst : Dst) : Option Nat :=
  r.dst.findIdx? (fun d => glbDstIsEqual d.dst dst)

/-- The tail shared by every effective change. -/
def routerRedo (cnf : Cnf) (now : Int) (r : Router) : Router :=
  let r := routerUpdateCtx cnf now r
  let r := if cnf.top then routerRedoTop r else r
  if routerUsesMap cnf then routerRedoMap r else r

/-- A destination as `glb_router_change_dst` fills it in. `map` is not
initialized there: `router_redo_map` writes it before any policy reads it. -/
def routerNewDst (dst : Dst) (probeCtx : Option CtxId) (timeNow : Int) : RouterDst where
  dst := dst
  probeCtx := probeCtx
  usage := dst.weight / (0 + 1 : Int)
  map := 0
  checked := timeNow
  failed := 0
  conns := 0

def routerAddDst (r : Router) (d : RouterDst) : Router :=
  { r with dst := r.dst ++ [d], topDst := none }

def routerRemoveDst (r : Router) (i : Nat) (d : RouterDst) : Router :=
  let dst := swapRemove r.dst i
  { r with
    topDst := none
    conns := r.conns - d.conns
    dst := dst
    rrbNext := if dst.length = 0 then 0 else r.rrbNext % dst.length }

def routerSetWeight (r : Router) (i : Nat) (weight : ℚ) : Router :=
  { r with dst := r.dst.modify i (fun d =>
      let d := { d with dst := { d.dst with weight := weight } }
      { d with usage := routerDstUsage d }) }

/-- `glb_router_change_dst` after the wait for connecting threads, with the
result of the search made before it. The second component is the code returned. -/
def routerApplyChange (cnf : Cnf) (env : ChangeEnv) (r : Router) (dst : Dst)
    (probeCtx : Option CtxId) (found : Option Nat) : Router × Int :=
  match found with
  | none =>
    if env.realloc then
      (routerRedo cnf env.now (routerAddDst r (routerNewDst dst probeCtx env.timeNow)), r.dst.length)
    else (routerRedo cnf env.now r, -ENOMEM)
  | some i =>
    match r.dst[i]? with
    | none => (r, i)
    | some d =>
      if dst.weight < 0 then
        let r := routerRemoveDst r i d
        (routerRedo cnf env.now r, if !env.realloc && r.dst.length > 0 then -ENOMEM else i)
      else if d.dst.weight ≠ dst.weight then
        (routerRedo cnf env.now (routerSetWeight r i dst.weight), i)
      else (r, i)

/-- `glb_router_change_dst` when no thread is connecting, so that it does not
wait. -/
def glbRouterChangeDst (cnf : Cnf) (env : ChangeEnv) (r : Router) (dst : Dst)
    (probeCtx : Option CtxId) : Router × Int :=
  let found := routerFindDst r dst
  if found.isNone && dst.weight < 0 then (r, -ENONET)
  else routerApplyChange cnf env r dst probeCtx found

/-- What `router_choose_dst` reads from outside: `time (NULL)`, the extra check
of the destination at each index, and the value of `rand_r`. -/
structure ChooseEnv where
  now : Int
  check : Nat → Check
  rand : UInt32

def routerDstCheck (d : RouterDst) (extra : Int) (c : Check) : RouterDst × Bool :=
  if extra = 0 || d.probeCtx.isNone || c.now - d.checked < extra then (d, true)
  else routerDstProbe d c

/-- The scan of `router_choose_dst_least` from index `i` on. -/
def leastLoop (ctx : RouterCtx) : List RouterDst → Nat → Option Nat × ℚ → Option Nat × ℚ
  | [], _, acc => acc
  | d :: ds, i, (ret, maxUsage) =>
    if d.usage > maxUsage && routerDstIsGood d ctx.minWeight ctx.now ctx.retry then
      leastLoop ctx ds (i + 1) (some i, d.usage)
    else leastLoop ctx ds (i + 1) (ret, maxUsage)

/-- Runs the extra check on the destination at index `i` and stores its marks. -/
def Router.checkAt (cnf : Cnf) (env : ChooseEnv) (r : Router) (i : Nat) : Router × Bool :=
  match r.dst[i]? with
  | none => (r, false)
  | some d =>
    let (d, ok) := routerDstCheck d cnf.extra (env.check i)
    ({ r with dst := r.dst.set i d }, ok)

def routerChooseDstLeast (cnf : Cnf) (env : ChooseEnv) (r : Router) : Router × Option Nat :=
  match (leastLoop r.ctx r.dst 0 (none, 0)).1 with
  | none => (r, none)
  | some i =>
    let (r, ok) := r.checkAt cnf env i
    (r, if ok then some i else none)

/-- The loop of `router_choose_dst_round` with `n` offsets left. -/
def roundLoop (cnf : Cnf) (env : ChooseEnv) : Nat → Router → Router × Option Nat
  | 0, r => (r, none)
  | n + 1, r =>
    let i := r.rrbNext
    let r := { r with rrbNext := (i + 1) % r.dst.length }
    match r.dst[i]? with
    | none => (r, none)
    | some d =>
      if routerDstIsGood d r.ctx.minWeight r.ctx.now r.ctx.retry then
        let (r, ok) := r.checkAt cnf env i
        if ok then (r, some i) else roundLoop cnf env n r
      else roundLoop cnf env n r

def routerChooseDstRound (cnf : Cnf) (env : ChooseEnv) (r : Router) : Router × Option Nat :=
  roundLoop cnf env r.dst.length r

def routerChooseDstSingle (r : Router) : Option Nat :=
  if routerTopDstIsGood r then r.topDst else none

/-- The loop of `router_choose_dst_hint` from index `i` on, `n` entries left. -/
def hintLoop (cnf : Cnf) (env : ChooseEnv) (m : ℚ) : Nat → Nat → Router → Router × Option Nat
  | 0, _, r => (r, none)
  | n + 1, i, r =>
    match r.dst[i]? with
    | none => (r, none)
    | some d =>
      if m < d.map then
        let (r, ok) := r.checkAt cnf env i
        if ok then (r, some i) else hintLoop cnf env m n (i + 1) r
      else hintLoop cnf env m n (i + 1) r

/-- The point of the unit interval a hint stands for. -/
def hintPoint (hint : UInt32) : ℚ := hint.toNat / 0xffffffff - routerDivProt

/-- The rebuild of an expired map that opens `router_choose_dst_hint`. -/
def routerExpireMap (cnf : Cnf) (r : Router) : Router :=
  if routerUsesMap cnf && r.mapFailed ≠ 0 && r.ctx.now - r.mapFailed > r.ctx.retry then
    { routerRedoMap r with mapFailed := 0 }
  else r

def routerChooseDstHint (cnf : Cnf) (env : ChooseEnv) (r : Router) (hint : UInt32) :
    Router × Option Nat :=
  if r.dst.length = 0 then (r, none)
  else
    let r := routerExpireMap cnf r
    hintLoop cnf env (hintPoint hint) r.dst.length 0 r

def routerRandomHint (rand : UInt32) : UInt32 := rand ^^^ (rand <<< 1)

/-- The recomputation of an expired top destination in `router_choose_dst`. -/
def routerExpireTop (cnf : Cnf) (r : Router) : Router :=
  if cnf.top && r.topFailed ≠ 0 && r.ctx.now - r.topFailed > r.ctx.retry then
    { routerRedoTop r with topFailed := 0 }
  else r

/-- The switch over policies. -/
def routerPolicy (cnf : Cnf) (env : ChooseEnv) (r : Router) (hint : UInt32) : Router × Option Nat :=
  match cnf.policy with
  | .least => routerChooseDstLeast cnf env r
  | .round => routerChooseDstRound cnf env r
  | .single => (r, routerChooseDstSingle r)
  | .random => routerChooseDstHint cnf env r (routerRandomHint env.rand)
  | .source => routerChooseDstHint cnf env r hint

/-- Counts `n` more connections at the destination with index `i`. -/
def Router.count (r : Router) (i : Nat) (n : Int) : Router :=
  { r with
    conns := r.conns + n
    dst := r.dst.modify i (fun d =>
      let d := { d with conns := d.conns + n }
      { d with usage := routerDstUsage d }) }

/-- `router_choose_dst`. A destination is returned as its index. -/
def routerChooseDst (cnf : Cnf) (env : ChooseEnv) (r : Router) (hint : UInt32) :
    Router × Option Nat :=
  let r := routerUpdateCtx cnf env.now r
  let r := routerExpireTop cnf r
  let (r, ret) := routerPolicy cnf env r hint
  match ret with
  | some i => (r.count i 1, some i)
  | none => (r, none)

/-- The address that a choice wrote to `*dst_addr`. -/
def Router.addrAt (r : Router) (ret : Option Nat) : Option SockAddr :=
  (ret.bind (fun i => r.dst[i]?)).map (fun d => d.dst.addr)

/-- `glb_router_choose_dst`; no address stands for `-EHOSTDOWN`. -/
def glbRouterChooseDst (cnf : Cnf) (env : ChooseEnv) (r : Router) (hint : UInt32) :
    Router × Option SockAddr :=
  let (r, ret) := routerChooseDst cnf env r hint
  (r, r.addrAt ret)

/-- `router_dst_failed` on the destination with index `i` at time `now`. -/
def routerDstFailed (cnf : Cnf) (now : Int) (r : Router) (i : Nat) : Router :=
  match r.dst[i]? with
  | none => r
  | some d =>
    let r := { r with ctx := { r.ctx with now := now, retry := routerRetryInterval cnf } }
    let dstWasGood := routerDstIsGood d r.ctx.minWeight r.ctx.now r.ctx.retry
    let r := { r with dst := r.dst.modify i (fun d => { d with failed := now }) }
    if dstWasGood then
      let r :=
        if r.topDst = some i then
          { routerRedoTop { r with ctx := { r.ctx with minWeight := glbDblEpsilon } } with
            topFailed := now }
        else r
      if routerUsesMap cnf then { routerRedoMap r with mapFailed := now } else r
    else r

/-- `router_disconnect`. The code returned is the index found, `n_dst` if none. -/
def routerDisconnect (cnf : Cnf) (now : Int) (r : Router) (dst : SockAddr) (failed : Bool) :
    Router × Nat :=
  match r.dst.findIdx? (fun d => glbSockaddrIsEqual d.dst.addr dst) with
  | none => (r, r.dst.length)
  | some i =>
    let r := r.count i (-1)
    (if failed then routerDstFailed cnf now r i else r, i)

def glbRouterDisconnect (cnf : Cnf) (now : Int) (r : Router) (dst : SockAddr) (failed : Bool) :
    Router := (routerDisconnect cnf now r dst failed).1

/-- `glb_router_choose_dst_again`; `now` is the clock of the failure report,
`env` that of the choice after it. -/
def glbRouterChooseDstAgain (cnf : Cnf) (now : Int) (env : ChooseEnv) (r : Router)
    (hint : UInt32) (dst : SockAddr) : Router × Option SockAddr :=
  glbRouterChooseDst cnf env (routerDisconnect cnf now r dst true).1 hint

/- `router_connect_dst` gives the lock back while it connects, so it is three
pieces: the first choice, what a failed attempt undoes with the next choice, and
the end. -/

def routerConnectStart (cnf : Cnf) (env : ChooseEnv) (r : Router) (hint : UInt32) :
    Router × Option Nat :=
  routerChooseDst cnf env { r with busyCount := r.busyCount + 1 } hint

def routerConnectRetry (cnf : Cnf) (now : Int) (env : ChooseEnv) (r : Router) (hint : UInt32)
    (dst : Nat) : Router × Option Nat :=
  routerChooseDst cnf env (routerDstFailed cnf now (r.count dst (-1)) dst) hint

def routerConnectEnd (r : Router) : Router := { r with busyCount := r.busyCount - 1 }

/-- One call into the router together with what it reads from outside. -/
inductive RouterOp where
  | change (env : ChangeEnv) (dst : Dst) (probeCtx : Option CtxId)
  | choose (env : ChooseEnv) (hint : UInt32)
  | disconnect (now : Int) (dst : SockAddr) (failed : Bool)
  | chooseAgain (now : Int) (env : ChooseEnv) (hint : UInt32) (dst : SockAddr)

def routerStep (cnf : Cnf) (r : Router) : RouterOp → Option Router
  | .change env dst probeCtx => some (glbRouterChangeDst cnf env r dst probeCtx).1
  | .choose env hint => some (glbRouterChooseDst cnf env r hint).1
  | .disconnect now dst failed => some (glbRouterDisconnect cnf now r dst failed)
  | .chooseAgain now env hint dst => some (glbRouterChooseDstAgain cnf now env r hint dst).1

end Glb
