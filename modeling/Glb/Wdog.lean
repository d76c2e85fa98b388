import Glb.Router
import Mathlib.Logic.Function.Basic

namespace Glb
open Function Lib.SwapRemove

inductive DstState where
  | notfound
  | notready
  | avoid
  | ready
  deriving DecidableEq, Repr

def DstState.toNat : DstState → Nat
  | .notfound => 0
  | .notready => 1
  | .avoid => 2
  | .ready => 3

/-- `glb_wdog_check_t`. `othersLen` is the length of the buffer of `others`; the
time stamp is left out, no one here reads it. -/
structure WdogCheck where
  state : DstState
  latency : ℚ
  others : Option String
  othersLen : Nat
  ready : Bool
  deriving DecidableEq, Repr

def WdogCheck.zero : WdogCheck := ⟨.notfound, 0, none, 0, false⟩

/-- What the watchdog and a backend thread share. -/
structure BackendCtx where
  result : WdogCheck
  quit : Bool
  join : Bool
  deriving DecidableEq, Repr

/-- `wdog_dst_t`, without `memb_changed`, which is set and never read. A negative
`weight` says that the router does not have the destination. -/
structure WdogDst where
  result : WdogCheck
  dst : Dst
  weight : ℚ
  ctx : CtxId
  failCount : Int
  explicit : Bool
  deriving DecidableEq, Repr

/-- The watchdog with the contexts it has allocated, the router it feeds and the
addresses it made the pools drop. -/
structure Wdog where
  dst : List WdogDst
  ctxs : CtxId → Option BackendCtx
  nextCtx : CtxId
  router : Router
  pool : Bool
  dropped : List SockAddr

def Wdog.init (pool : Bool) : Wdog := ⟨[], fun _ => none, 0, Router.init, pool, []⟩

def wdogMaxFailCount : Int := 8

/-- What adding a destination depends on: memory for the context, memory for the
array, and the error the backend thread starts with, zero for none. -/
structure StartEnv where
  ctx : Bool
  realloc : Bool
  errn : Int
  deriving DecidableEq, Repr

def wdogFindDst (w : Wdog) (dst : Dst) : Option Nat :=
  w.dst.findIdx? (fun d => glbDstIsEqual d.dst dst)

/-- Tells the backend thread of a context to quit. -/
def Wdog.signalQuit (w : Wdog) (id : CtxId) : Wdog :=
  { w with ctxs := update w.ctxs id ((w.ctxs id).map fun c => { c with quit := true }) }

/-- A destination that is referred to again. -/
def wdogRefer (weight : ℚ) (explicit : Bool) (d : WdogDst) : WdogDst :=
  let d := { d with failCount := 0 }
  if explicit then { d with explicit := true, dst := { d.dst with weight := weight } }
  else if !d.explicit then { d with dst := { d.dst with weight := weight } }
  else d

def wdogChangeDst (env : StartEnv) (w : Wdog) (dst : Dst) (explicit : Bool) : Wdog × Int :=
  match wdogFindDst w dst with
  | none =>
    if dst.weight < 0 then (w, -EADDRNOTAVAIL)
    else if !env.ctx || !env.realloc then (w, -ENOMEM)
    else
      let id := w.nextCtx
      let w := { w with nextCtx := id + 1 }
      if env.errn = 0 then
        ({ w with
          ctxs := update w.ctxs id (some ⟨.zero, false, false⟩)
          dst := w.dst ++ [⟨.zero, dst, -1, id, 0, explicit⟩] }, w.dst.length)
      else (w, -env.errn)
  | some i =>
    match w.dst[i]? with
    | none => (w, i)
    | some d =>
      if dst.weight < 0 then (if explicit || !d.explicit then w.signalQuit d.ctx else w, i)
      else ({ w with dst := w.dst.modify i (wdogRefer dst.weight explicit) }, i)

/-- The buffer of `others` after a new result: grown or shrunk if its size is too
different, lost if there is no memory, and then overwritten. -/
def wdogCopyOthers (realloc : Bool) (old res : WdogCheck) : Option String × Nat :=
  if old.othersLen < res.othersLen || old.othersLen > res.othersLen * 2 then
    if res.othersLen > 0 && realloc then (res.others, res.othersLen) else (none, 0)
  else if res.othersLen > 0 then (res.others, old.othersLen)
  else (old.others, old.othersLen)

/-- `wdog_copy_result`: the destination, the context and the greatest latency. -/
def wdogCopyResult (realloc : Bool) (lf : Int) (d : WdogDst) (ctx : BackendCtx) (maxLat : ℚ) :
    WdogDst × BackendCtx × ℚ :=
  let old := d.result
  let res := ctx.result
  let d := { d with result := { res with others := old.others, othersLen := old.othersLen } }
  let ctx := { ctx with result := { res with ready := false } }
  let (d, ctx) :=
    if !res.ready then (d, ctx)
    else if res.state = .notfound then
      let d := { d with failCount := d.failCount + 1 }
      (d, if !d.explicit && d.failCount > wdogMaxFailCount then { ctx with quit := true } else ctx)
    else
      let (others, othersLen) := wdogCopyOthers realloc old res
      ({ d with result := { d.result with others := others, othersLen := othersLen } }, ctx)
  if res.ready && res.state = .ready then
    let latency := (res.latency + old.latency * lf) / (lf + 1)
    ({ d with result := { d.result with latency := latency } }, ctx,
      if maxLat < latency then latency else maxLat)
  else ({ d with result := { d.result with latency := old.latency } }, ctx, maxLat)

/-- `wdog_result_weight`. A latency of zero, which makes the weight infinite in the
code, makes it zero here. -/
def wdogResultWeight (d : WdogDst) (maxLat : ℚ) (useLatency : Bool) : ℚ :=
  match d.result.state with
  | .notfound => -1
  | .notready => -1
  | .avoid => 0
  | .ready => if maxLat > 0 && useLatency then d.dst.weight * maxLat / d.result.latency else d.dst.weight

/-- What a call of `wdog_collect_results` meets: memory for the buffer of the
destination at each index, the contexts whose thread exits while the call is going,
the router calls, and memory and threads for new members. -/
structure CollectEnv where
  realloc : Nat → Bool
  exits : CtxId → Bool
  change : Nat → ChangeEnv
  memory : Bool
  start : Nat → StartEnv

/-- The first loop of `wdog_collect_results` from index `i` on. A destination whose
context is gone would be a use after free. -/
def copyLoop (env : CollectEnv) (lf : Int) :
    List WdogDst → Nat → (CtxId → Option BackendCtx) → ℚ →
      Option (List WdogDst × (CtxId → Option BackendCtx) × ℚ)
  | [], _, ctxs, maxLat => some ([], ctxs, maxLat)
  | d :: ds, i, ctxs, maxLat =>
    match ctxs d.ctx with
    | none => none
    | some ctx =>
      let (d', ctx, maxLat) := wdogCopyResult (env.realloc i) lf d ctx maxLat
      (copyLoop env lf ds (i + 1) (update ctxs d.ctx (some ctx)) maxLat).map
        fun (ds, ctxs, maxLat) => (d' :: ds, ctxs, maxLat)

/-- The weight that the router should have for a destination. -/
def wdogNewWeight (cnf : Cnf) (maxLat : ℚ) (d : WdogDst) : ℚ :=
  if d.result.ready then wdogResultWeight d maxLat (cnf.latFactor > 0)
  else if d.weight ≥ 0 then 0
  else d.weight

/-- The state of a destination whose backend thread has not been heard from. -/
def wdogHold (d : WdogDst) : WdogDst :=
  if d.result.ready then d
  else
    let most : DstState := if d.weight ≥ 0 then .avoid else .notready
    if d.result.state.toNat > most.toNat then { d with result := { d.result with state := most } } else d

def weightTolerance : ℚ := 1 / 10

/-- Whether the router is to hear of a weight. At the tolerance itself the rounding of the
doubles decides in the code. -/
def wdogWeightDiffers (weight newWeight : ℚ) : Bool :=
  newWeight ≠ weight && (newWeight ≤ 0 || |weight / newWeight - 1| > weightTolerance)

/-- Brings a new weight to the router, and what the watchdog notes if that worked. -/
def wdogUpdateRouter (cnf : Cnf) (env : ChangeEnv) (w : Wdog) (i : Nat) (d : WdogDst) (newWeight : ℚ) :
    Wdog :=
  if wdogWeightDiffers d.weight newWeight then
    let (r, ret) := glbRouterChangeDst cnf env w.router ⟨d.dst.addr, newWeight⟩ (some d.ctx)
    let w := { w with router := r }
    if ret ≥ 0 then
      { w with
        dropped := if newWeight < 0 && w.pool then w.dropped ++ [d.dst.addr] else w.dropped
        dst := w.dst.modify i (fun d => { d with weight := newWeight }) }
    else w
  else w

/-- The second loop's variables. -/
structure Collect where
  wdog : Wdog
  results : Nat
  membSource : Option Nat

/-- Whether a destination may tell the membership. -/
def wdogTellsMembers (cnf : Cnf) (d : WdogDst) : Bool :=
  cnf.discover && d.result.ready && d.result.state = .ready && d.result.others.isSome

/-- The second loop's body. -/
def collectOne (cnf : Cnf) (env : CollectEnv) (maxLat : ℚ) (c : Collect) (i : Nat) : Option Collect :=
  let w := c.wdog
  match w.dst[i]? with
  | none => none
  | some d =>
    match w.ctxs d.ctx with
    | none => none
    | some ctx =>
      if ctx.join || env.exits d.ctx then
        some { c with wdog := { w with ctxs := update w.ctxs d.ctx none, dst := swapRemove w.dst i } }
      else
        let w := { w with dst := w.dst.modify i wdogHold }
        some {
          wdog := wdogUpdateRouter cnf (env.change i) w i (wdogHold d) (wdogNewWeight cnf maxLat d)
          results := if d.result.ready then c.results + 1 else c.results
          membSource := if c.membSource.isNone && wdogTellsMembers cnf d then some i else c.membSource }

/-- The second loop with the indices below `n` still to do, the greatest first. -/
def collectLoop (cnf : Cnf) (env : CollectEnv) (maxLat : ℚ) : Nat → Collect → Option Collect
  | 0, c => some c
  | n + 1, c => (collectOne cnf env maxLat c n).bind (collectLoop cnf env maxLat n)

/-- The loop of `wdog_process_membership_change` over the members that could be
parsed. -/
def membershipLoop (start : Nat → StartEnv) : List Dst → Nat → Wdog → Wdog
  | [], _, w => w
  | dst :: dsts, i, w => membershipLoop start dsts (i + 1) (wdogChangeDst (start i) w dst false).1

section steps
-- what a membership string parses to, without the members that do not parse
variable (members : String → List Dst)

def wdogProcessMembershipChange (env : CollectEnv) (w : Wdog) (memb : String) : Wdog :=
  if env.memory then membershipLoop env.start (members memb) 0 w else w

/-- `wdog_collect_results`. The member list is read from the index where it was
found, which may be past the end of the array by then. -/
def wdogCollectResults (cnf : Cnf) (env : CollectEnv) (w : Wdog) : Option (Wdog × Nat) :=
  match copyLoop env cnf.latFactor w.dst 0 w.ctxs 0 with
  | none => none
  | some (dst, ctxs, maxLat) =>
    let w := { w with dst := dst, ctxs := ctxs }
    match collectLoop cnf env maxLat dst.length ⟨w, 0, none⟩ with
    | none => none
    | some c =>
      match c.membSource with
      | none => some (c.wdog, c.results)
      | some i =>
        match (c.wdog.dst[i]?).bind (fun d => d.result.others) with
        | none => none
        | some memb => some (wdogProcessMembershipChange members env c.wdog memb, c.results)

/-- A step of the control thread, of a backend thread, of the watchdog's loop or of
a thread that routes. A backend thread that exits clears its result in the exec
backend and leaves it in the dummy one. -/
inductive WdogOp where
  | request (env : StartEnv) (dst : Dst)
  | post (ctx : CtxId) (res : WdogCheck)
  | exit (ctx : CtxId) (clears : Bool)
  | collect (env : CollectEnv)
  | choose (env : ChooseEnv) (hint : UInt32)
  | disconnect (now : Int) (dst : SockAddr) (failed : Bool)
  | chooseAgain (now : Int) (env : ChooseEnv) (hint : UInt32) (dst : SockAddr)

/-- A step of a backend thread that has not exited. -/
def Wdog.onCtx (w : Wdog) (id : CtxId) (f : BackendCtx → BackendCtx) : Option Wdog :=
  match w.ctxs id with
  | none => none
  | some c => if c.join then none else some { w with ctxs := update w.ctxs id (some (f c)) }

def wdogStep (cnf : Cnf) (w : Wdog) : WdogOp → Option Wdog
  | .request env dst => some (wdogChangeDst env w dst true).1
  | .post id res => w.onCtx id (fun c => { c with result := res })
  | .exit id clears =>
    w.onCtx id (fun c => { c with join := true, result := if clears then .zero else c.result })
  | .collect env => (wdogCollectResults members cnf env w).map Prod.fst
  | .choose env hint => some { w with router := (glbRouterChooseDst cnf env w.router hint).1 }
  | .disconnect now dst failed => some { w with router := glbRouterDisconnect cnf now w.router dst failed }
  | .chooseAgain now env hint dst =>
    some { w with router := (glbRouterChooseDstAgain cnf now env w.router hint dst).1 }

end steps

end Glb
