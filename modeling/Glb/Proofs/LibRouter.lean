import Glb.Proofs.HeldSlot
import Glb.Proofs.Roster
import Glb.LibGlb

namespace Glb.Proofs.LibRouter
open Lib.Run Lib.SwapRemove RouterFrame RouterRun RouterTable HeldSlot

/-- The process when a thread has made its socket blocking and has its first choice. -/
def begun (cnf : Cnf) (s : LibProc) (fd : Fd) (flags : BitVec 32) (r : Router) (next : UInt32) : LibProc :=
  { if flags ≠ blockFlags flags then s.setfl fd (blockFlags flags) else s with
    router := r
    seed := libSeed cnf s.seed next }

theorem begun_threads (cnf : Cnf) (s : LibProc) (fd : Fd) (flags : BitVec 32) (r : Router) (next : UInt32) :
    (begun cnf s fd flags r next).threads = s.threads := by
  unfold begun
  split <;> rfl

/-- What one step of a process with the library can be. -/
inductive LibTurn (cnf : Cnf) (incAddr : SockAddr) (s : LibProc) : LibOp → LibProc → Prop
  | passes {id : Nat} {fd : Fd} {l : LibPc} (hpc : s.threads[id]? = some l) (hi : l.idle = true)
    (hm : glbMatchAddress incAddr addr = false) :
    LibTurn cnf incAddr s (.connect id fd addr env next real badf)
      (s.goto id (.returned real.1 real.2 (some addr)))
  | badFd {id : Nat} {l : LibPc} (hpc : s.threads[id]? = some l) (hi : l.idle = true)
    (hm : glbMatchAddress incAddr addr = true) (hf : s.flags fd = none) :
    LibTurn cnf incAddr s (.connect id fd addr env next real badf) (s.goto id (.returned (-1) badf none))
  | starts {id : Nat} {fd : Fd} {addr : SockAddr} {env : ChooseEnv} {next : UInt32} {real : Int × Int} {badf : Int}
    {l : LibPc} {flags : BitVec 32} {r : Router} {ret : Option Nat} (hpc : s.threads[id]? = some l) (hi : l.idle = true)
    (hm : glbMatchAddress incAddr addr = true) (hf : s.flags fd = some flags)
    (hr : libConnectStart cnf env s.router s.seed = (r, ret)) :
    LibTurn cnf incAddr s (.connect id fd addr env next real badf)
      (libLoop (begun cnf s fd flags r next) id fd flags s.seed EHOSTDOWN ret)
  | retries {id : Nat} {error now : Int} {env : ChooseEnv} {next : UInt32} {fd : Fd} {flags : BitVec 32}
    {hint : UInt32} {i : Nat} {peer : SockAddr} {r : Router} {ret : Option Nat}
    (hpc : s.threads[id]? = some (.dialling fd flags hint i peer))
    (he : error ≠ 0 ∧ error ≠ EINPROGRESS) (hr : libConnectRetry cnf now env s.router hint i = (r, ret)) :
    LibTurn cnf incAddr s (.connected id error now env next)
      (libLoop { s with router := r, seed := libSeed cnf s.seed next } id fd flags hint error ret)
  | connects {id : Nat} {error now : Int} {env : ChooseEnv} {next : UInt32} {fd : Fd} {flags : BitVec 32}
    {hint : UInt32} {i : Nat} {peer : SockAddr} (hpc : s.threads[id]? = some (.dialling fd flags hint i peer))
    (he : ¬ (error ≠ 0 ∧ error ≠ EINPROGRESS)) :
    LibTurn cnf incAddr s (.connected id error now env next) (libReturn s id fd flags error (some peer))
  | changes (hw : routerChangeWaits s.router dst = false) :
    LibTurn cnf incAddr s (.change env dst ctx)
      { s with router := (libRouterChangeDst cnf env s.router dst ctx).1 }
  | sets {fd : Fd} {flags : BitVec 32} : LibTurn cnf incAddr s (.setfl fd flags) (s.setfl fd flags)

variable {cnf : Cnf} {incAddr : SockAddr} {s t : LibProc} {op : LibOp} {id : Nat}

theorem lib_connect_turn (h : libConnect cnf incAddr s id fd addr env next real badf = some t) :
    LibTurn cnf incAddr s (.connect id fd addr env next real badf) t := by
  unfold libConnect at h
  cases hpc : s.threads[id]? with
  | none => simp [hpc] at h
  | some l =>
    simp only [hpc] at h
    cases hi : l.idle with
    | false => simp [hi] at h
    | true =>
      cases hm : glbMatchAddress incAddr addr with
      | false =>
        simp only [hi, hm, Bool.not_true, Bool.not_false, Bool.false_eq_true, if_false, if_true,
          Option.some.injEq] at h
        exact h ▸ .passes hpc hi hm
      | true =>
        simp only [hi, hm, Bool.not_true, Bool.false_eq_true, if_false] at h
        cases hf : s.flags fd with
        | none =>
          simp only [hf, Option.some.injEq] at h
          exact h ▸ .badFd hpc hi hm hf
        | some flags =>
          simp only [hf, Option.some.injEq] at h
          exact h ▸ .starts hpc hi hm hf rfl

theorem lib_turn_cases (h : libStep cnf incAddr s op = some t) : LibTurn cnf incAddr s op t := by
  cases op with
  | connect id fd addr env next real badf => exact lib_connect_turn h
  | connected id error now env next =>
    simp only [libStep, libConnected] at h
    split at h
    · rename_i fd flags hint i peer hpc
      split at h <;> rename_i he <;> simp only [Option.some.injEq] at h <;> subst h
      · exact .retries hpc he rfl
      · exact .connects hpc he
    · cases h
  | change env dst ctx =>
    simp only [libStep] at h
    split at h <;> rename_i hw
    · cases h
    · simp only [Option.some.injEq] at h
      exact h ▸ .changes (by simpa using hw)
  | setfl fd flags =>
    simp only [libStep, Option.some.injEq] at h
    exact h ▸ .sets

variable {r r' : Router} {env : ChooseEnv} {hint : UInt32} {now : Int} {i : Nat}

/-- A destination without what only the daemon counts. -/
def plainDst (d : RouterDst) : RouterDst := { d with usage := 0, conns := 0 }

/-- The router without what only the daemon counts. -/
def plain (r : Router) : Router := { r with conns := 0, dst := r.dst.map plainDst }

section erasure

theorem plain_get (r : Router) (i : Nat) : (plain r).dst[i]? = r.dst[i]?.map plainDst := List.getElem?_map

theorem plain_length (r : Router) : (plain r).dst.length = r.dst.length := List.length_map _

theorem plain_top (r : Router) : (plain r).top = r.top.map plainDst := by
  unfold Router.top
  show r.topDst.bind (fun i => (plain r).dst[i]?) = _
  cases r.topDst with
  | none => rfl
  | some i => exact plain_get r i

theorem plain_top_good (r : Router) : routerTopDstIsGood (plain r) = routerTopDstIsGood r := by
  unfold routerTopDstIsGood
  rw [plain_top]
  cases r.top with
  | none => rfl
  | some d => rfl

theorem plain_min_weight (r : Router) : routerMinWeight (plain r) = routerMinWeight r := by
  unfold routerMinWeight
  rw [plain_top, plain_top_good]
  cases r.top with
  | none => rfl
  | some d => rfl

theorem plain_update_ctx (cnf : Cnf) (now : Int) (r : Router) :
    routerUpdateCtx cnf now (plain r) = plain (routerUpdateCtx cnf now r) := by
  have hw := plain_min_weight { r with ctx := { r.ctx with now := now, retry := routerRetryInterval cnf } }
  unfold routerUpdateCtx
  simp only [plain] at hw ⊢
  rw [hw]

theorem plain_top_loop (now retry : Int) (ds : List RouterDst) (i : Nat) (acc : Option Nat × ℚ) :
    redoTopLoop now retry (ds.map plainDst) i acc = redoTopLoop now retry ds i acc := by
  induction ds generalizing i acc with
  | nil => rfl
  | cons d ds ih =>
    obtain ⟨top, w⟩ := acc
    simp only [List.map_cons, redoTopLoop, ih]
    rfl

theorem plain_redo_top (r : Router) : routerRedoTop (plain r) = plain (routerRedoTop r) := by
  have hl := plain_top_loop r.ctx.now r.ctx.retry r.dst 0 (r.topDst, r.ctx.minWeight)
  unfold routerRedoTop
  simp only [plain] at hl ⊢
  rw [hl]

theorem plain_normalize (total m : ℚ) (ds : List RouterDst) :
    redoMapNormalize total m (ds.map plainDst) = (redoMapNormalize total m ds).map plainDst := by
  induction ds generalizing m with
  | nil => rfl
  | cons d ds ih =>
    simp only [List.map_cons, redoMapNormalize, List.cons.injEq]
    exact ⟨rfl, ih _⟩

theorem plain_redo_map (r : Router) : routerRedoMap (plain r) = plain (routerRedoMap r) := by
  have hweigh : (plain r).dst.map (redoMapWeigh (plain r).ctx) = (r.dst.map (redoMapWeigh r.ctx)).map plainDst := by
    simp only [plain, List.map_map]
    rfl
  have htotal : ((r.dst.map (redoMapWeigh r.ctx)).map plainDst).map RouterDst.map =
      (r.dst.map (redoMapWeigh r.ctx)).map RouterDst.map := by
    rw [List.map_map]
    rfl
  unfold routerRedoMap
  simp only [hweigh, htotal, plain_normalize, apply_ite plain]
  rfl

theorem plain_redo (cnf : Cnf) (now : Int) (r : Router) :
    routerRedo cnf now (plain r) = plain (routerRedo cnf now r) := by
  unfold routerRedo
  simp only [plain_update_ctx]
  split <;> split <;> simp only [plain_redo_top, plain_redo_map]

theorem plain_expire_top (cnf : Cnf) (r : Router) :
    routerExpireTop cnf (plain r) = plain (routerExpireTop cnf r) := by
  have hredo := plain_redo_top r
  unfold routerExpireTop
  rw [hredo]
  show (if cnf.top && r.topFailed ≠ 0 && r.ctx.now - r.topFailed > r.ctx.retry then _ else _) = _
  split <;> rfl

theorem plain_expire_map (cnf : Cnf) (r : Router) :
    routerExpireMap cnf (plain r) = plain (routerExpireMap cnf r) := by
  have hredo := plain_redo_map r
  unfold routerExpireMap
  rw [hredo]
  show (if routerUsesMap cnf && r.mapFailed ≠ 0 && r.ctx.now - r.mapFailed > r.ctx.retry then _ else _) = _
  split <;> rfl

/-- Erasure of a router that comes with a result. -/
def plainBy (x : Router × α) : Router × α := (plain x.1, x.2)

@[simp] theorem plainBy_fst (x : Router × α) : (plainBy x).1 = plain x.1 := rfl

@[simp] theorem plainBy_snd (x : Router × α) : (plainBy x).2 = x.2 := rfl

theorem plain_dst_check (d : RouterDst) (extra : Int) (c : Check) :
    routerDstCheck (plainDst d) extra c = (plainDst (routerDstCheck d extra c).1, (routerDstCheck d extra c).2) := by
  unfold routerDstCheck routerDstProbe
  show (if extra = 0 || d.probeCtx.isNone || c.now - d.checked < extra then _ else _) = _
  split
  · rfl
  · split <;> rfl

theorem plain_check (cnf : Cnf) (env : ChooseEnv) (r : Router) (i : Nat) :
    (plain r).checkAt cnf env i = plainBy (r.checkAt cnf env i) := by
  unfold Router.checkAt
  rw [plain_get]
  cases r.dst[i]? with
  | none => rfl
  | some d =>
    simp only [Option.map_some, plain_dst_check, plainBy, plain, List.map_set]

theorem plain_round_loop (cnf : Cnf) (env : ChooseEnv) (n : Nat) (r : Router) :
    roundLoop cnf env n (plain r) = plainBy (roundLoop cnf env n r) := by
  induction n generalizing r with
  | zero => rfl
  | succ n ih =>
    -- the cursor moves alike, and then the two look at the same slot
    have hq : ({ plain r with rrbNext := ((plain r).rrbNext + 1) % (plain r).dst.length } : Router) =
        plain { r with rrbNext := (r.rrbNext + 1) % r.dst.length } := by
      rw [plain_length]
      rfl
    simp only [roundLoop, hq]
    generalize { r with rrbNext := (r.rrbNext + 1) % r.dst.length } = q
    have hslot : (plain r).dst[(plain r).rrbNext]? = r.dst[r.rrbNext]?.map plainDst := plain_get r r.rrbNext
    rw [hslot]
    cases r.dst[r.rrbNext]? with
    | none => rfl
    | some d =>
      show (if routerDstIsGood d r.ctx.minWeight r.ctx.now r.ctx.retry then
        (if ((plain q).checkAt cnf env r.rrbNext).2 then _ else _) else _) = _
      simp only [apply_ite plainBy, plain_check, plainBy_fst, plainBy_snd, ih]
      rfl

theorem plain_hint_loop (cnf : Cnf) (env : ChooseEnv) (m : ℚ) (n i : Nat) (r : Router) :
    hintLoop cnf env m n i (plain r) = plainBy (hintLoop cnf env m n i r) := by
  induction n generalizing i r with
  | zero => rfl
  | succ n ih =>
    simp only [hintLoop]
    rw [plain_get]
    cases r.dst[i]? with
    | none => rfl
    | some d =>
      show (if m < d.map then _ else _) = _
      simp only [apply_ite plainBy, plain_check, plainBy_fst, plainBy_snd, ih]
      rfl

theorem plain_by_policy (hp : cnf.policy ≠ .least) (env : ChooseEnv) (r : Router) (hint : UInt32) :
    routerPolicy cnf env (plain r) hint = plainBy (routerPolicy cnf env r hint) := by
  have by_hint : ∀ hint, routerChooseDstHint cnf env (plain r) hint = plainBy (routerChooseDstHint cnf env r hint) := by
    intro hint
    unfold routerChooseDstHint
    simp only [plain_length, plain_expire_map, plain_hint_loop, apply_ite plainBy]
    rfl
  unfold routerPolicy
  cases h : cnf.policy with
  | least => exact absurd h hp
  | round =>
    unfold routerChooseDstRound
    rw [plain_length]
    exact plain_round_loop cnf env r.dst.length r
  | single =>
    unfold routerChooseDstSingle
    rw [plain_top_good]
    rfl
  | random => exact by_hint _
  | source => exact by_hint _

theorem count_plain (r : Router) (i : Nat) (n : Int) : plain (r.count i n) = plain r := by
  have hd : (r.count i n).dst.map plainDst = r.dst.map plainDst := map_modify _ _ _ _ (fun _ => rfl)
  unfold plain
  rw [hd]
  rfl

theorem lib_choose_eq (hp : cnf.policy ≠ .least) (env : ChooseEnv) (r : Router) (hint : UInt32) :
    libChooseDst cnf env r hint =
      routerPolicy cnf env (routerExpireTop cnf (routerUpdateCtx cnf env.now r)) hint := by
  unfold libChooseDst routerPolicy
  cases h : cnf.policy with
  | least => exact absurd h hp
  | _ => rfl

/-- The library chooses as the daemon does, which only counts on top of it. -/
theorem plain_choose (hp : cnf.policy ≠ .least) (env : ChooseEnv) (r : Router) (hint : UInt32) :
    libChooseDst cnf env (plain r) hint = plainBy (routerChooseDst cnf env r hint) := by
  rw [lib_choose_eq hp, plain_update_ctx, plain_expire_top, plain_by_policy hp]
  unfold routerChooseDst
  simp only
  obtain ⟨q, ret⟩ := routerPolicy cnf env (routerExpireTop cnf (routerUpdateCtx cnf env.now r)) hint
  cases ret with
  | none => rfl
  | some i => exact congrArg (fun q => (q, some i)) (count_plain q i 1).symm

theorem plain_start (hp : cnf.policy ≠ .least) (env : ChooseEnv) (r : Router) (hint : UInt32) :
    libConnectStart cnf env (plain r) hint = plainBy (routerConnectStart cnf env r hint) :=
  plain_choose hp env { r with busyCount := r.busyCount + 1 } hint

theorem plain_stamped (cnf : Cnf) (now : Int) (r : Router) (i : Nat) :
    stamped cnf now (plain r) i = plain (stamped cnf now r i) := by
  have hd : (plain r).dst.modify i (fun d => { d with failed := now }) =
      (r.dst.modify i (fun d => { d with failed := now })).map plainDst := by
    symm
    apply Roster.map_modify_as
    intro d
    rfl
  unfold stamped
  rw [hd]
  rfl

theorem plain_retopped (cnf : Cnf) (now : Int) (r : Router) (i : Nat) :
    retopped cnf now (plain r) i = plain (retopped cnf now r i) := by
  have hredo := plain_redo_top { stamped cnf now r i with ctx := ⟨glbDblEpsilon, routerRetryInterval cnf, now⟩ }
  unfold retopped
  rw [plain_stamped, apply_ite plain]
  show (if r.topDst = some i then
    { routerRedoTop (plain { stamped cnf now r i with ctx := ⟨glbDblEpsilon, routerRetryInterval cnf, now⟩ }) with
      topFailed := now } else _) = _
  rw [hredo]
  rfl

theorem failed_at (hd : r.dst[i]? = some d) : routerDstFailed cnf now r i =
    if routerDstIsGood d r.ctx.minWeight now (routerRetryInterval cnf) then
      if routerUsesMap cnf then { routerRedoMap (retopped cnf now r i) with mapFailed := now }
      else retopped cnf now r i
    else stamped cnf now r i := by
  unfold routerDstFailed
  rw [hd]
  rfl

theorem plain_failed (cnf : Cnf) (now : Int) (r : Router) (i : Nat) :
    routerDstFailed cnf now (plain r) i = plain (routerDstFailed cnf now r i) := by
  cases hd : r.dst[i]? with
  | none =>
    unfold routerDstFailed
    rw [plain_get, hd]
    rfl
  | some d =>
    have hp : (plain r).dst[i]? = some (plainDst d) := by rw [plain_get, hd, Option.map_some]
    rw [failed_at hd, failed_at hp, plain_retopped, plain_stamped, plain_redo_map]
    simp only [apply_ite plain]
    rfl

theorem plain_retry (hp : cnf.policy ≠ .least) (now : Int) (env : ChooseEnv) (r : Router) (hint : UInt32) (i : Nat) :
    libConnectRetry cnf now env (plain r) hint i = plainBy (routerConnectRetry cnf now env r hint i) := by
  unfold libConnectRetry routerConnectRetry
  rw [← count_plain r i (-1), plain_failed, plain_choose hp]

theorem plain_find (r : Router) (dst : Dst) : routerFindDst (plain r) dst = routerFindDst r dst := by
  unfold routerFindDst plain
  rw [List.findIdx?_map]
  rfl

theorem plain_waits (r : Router) (dst : Dst) : routerChangeWaits (plain r) dst = routerChangeWaits r dst := by
  unfold routerChangeWaits
  rw [plain_find]
  rfl

theorem plain_added (r : Router) (d : RouterDst) : routerAddDst (plain r) (plainDst d) = plain (routerAddDst r d) := by
  simp [routerAddDst, plain]

theorem plain_removed (r : Router) (i : Nat) (d : RouterDst) : libRemoveDst (plain r) i = plain (routerRemoveDst r i d) := by
  simp [libRemoveDst, routerRemoveDst, plain, swapRemove_map]

theorem plain_weighed (r : Router) (i : Nat) (w : ℚ) : libSetWeight (plain r) i w = plain (routerSetWeight r i w) := by
  have hd : (plain r).dst.modify i (fun d => { d with dst := { d.dst with weight := w } }) =
      (routerSetWeight r i w).dst.map plainDst := by
    symm
    apply Roster.map_modify_as
    intro d
    rfl
  unfold libSetWeight
  rw [hd]
  rfl

/-- The table changes alike. -/
theorem plain_change (cnf : Cnf) (env : ChangeEnv) (r : Router) (dst : Dst) (ctx : Option CtxId) :
    libRouterChangeDst cnf env (plain r) dst ctx = plainBy (glbRouterChangeDst cnf env r dst ctx) := by
  have hnew : libNewDst dst ctx env.timeNow = plainDst (routerNewDst dst ctx env.timeNow) := rfl
  unfold libRouterChangeDst glbRouterChangeDst
  rw [plain_find, apply_ite plainBy]
  unfold libApplyChange routerApplyChange
  cases routerFindDst r dst with
  | none =>
    simp only [hnew, plain_added, plain_redo, plain_length, apply_ite plainBy]
    rfl
  | some i =>
    simp only [plain_get]
    cases r.dst[i]? with
    | none => rfl
    | some d =>
      simp only [Option.map_some, plain_removed r i d, plain_weighed, plain_redo, plain_length, apply_ite plainBy]
      rfl

end erasure

section mirror
variable {a b : RouterSys}

/-- The steps of the daemon's router code that stand for one of the library: a call of
`connect ()` for the address to balance is one of `router_connect_dst`, with the seed as
hint. -/
def mirror (cnf : Cnf) (incAddr : SockAddr) (s : LibProc) : LibOp → List SysOp
  | .connect id fd addr env _ _ _ =>
    if glbMatchAddress incAddr addr && (s.flags fd).isSome then
      .connect id env s.seed :: if (libConnectStart cnf env s.router s.seed).2.isSome then [.dial id] else []
    else []
  | .connected id error now env _ =>
    .connected id error now env ::
      match s.threads[id]? with
      | some (.dialling _ _ hint i _) =>
        if (error ≠ 0 ∧ error ≠ EINPROGRESS) ∧ (libConnectRetry cnf now env s.router hint i).2.isSome then [.dial id]
        else []
      | _ => []
  | .change env dst ctx => [.change env dst ctx]
  | .setfl _ _ => []

/-- A thread of the library and one of the daemon are at the same place: both between two
calls, or both inside `connect ()` with the same hint, slot and address. -/
inductive SamePlace : Option LibPc → Option ConnectPc → Prop
  | absent : SamePlace none none
  | idle {l : LibPc} {pc : ConnectPc} (hl : l.idle = true) (hd : pc.idle = true) : SamePlace (some l) (some pc)
  | dialling {p : DstPtr} {hint : UInt32} {i : Nat} (hi : p.idx = i) :
    SamePlace (some (.dialling fd flags hint i peer)) (some (.dialled p hint chose peer))

structure LibMirrors (s : LibProc) (a : RouterSys) : Prop where
  held : SlotsHeld a
  alone : a.changer = .out
  router : s.router = plain a.router
  threads : ∀ id : Nat, SamePlace (s.threads[id]?) (a.threads[id]?)

theorem LibMirrors.idle {l : LibPc} (h : LibMirrors s a) (hpc : s.threads[id]? = some l) (hl : l.idle = true) :
    ∃ pc, a.threads[id]? = some pc ∧ pc.idle = true := by
  have hs := h.threads id
  rw [hpc] at hs
  generalize a.threads[id]? = x at hs
  cases hs with
  | idle _ hd => exact ⟨_, rfl, hd⟩
  | dialling _ => cases hl

theorem LibMirrors.dialled (h : LibMirrors s a) (hpc : s.threads[id]? = some (.dialling fd flags hint i peer)) :
    ∃ p chose, a.threads[id]? = some (.dialled p hint chose peer) ∧ p.idx = i := by
  have hs := h.threads id
  rw [hpc] at hs
  generalize a.threads[id]? = x at hs
  cases hs with
  | idle hl _ => cases hl
  | dialling hi => exact ⟨_, _, rfl, hi⟩

theorem stands_set {ls : List LibPc} {pcs : List ConnectPc} (h : ∀ id : Nat, SamePlace (ls[id]?) (pcs[id]?))
    (hs : SamePlace (some l) (some pc)) (id j : Nat) : SamePlace ((ls.set id l)[j]?) ((pcs.set id pc)[j]?) := by
  have hj := h j
  by_cases he : id = j
  · subst he
    cases hl : ls[id]? with
    | none =>
      rw [hl] at hj
      generalize hp : pcs[id]? = x at hj
      cases hj
      rw [List.getElem?_set_self', List.getElem?_set_self', hl, hp]
      exact .absent
    | some l' =>
      rw [hl] at hj
      generalize hp : pcs[id]? = x at hj
      cases hj <;> rw [List.getElem?_set_self', List.getElem?_set_self', hl, hp] <;> exact hs
  · rw [List.getElem?_set_ne he, List.getElem?_set_ne he]
    exact hj

theorem return_frame (s : LibProc) (id : Nat) (fd : Fd) (flags : BitVec 32) (error : Int) (peer : Option SockAddr) :
    (libReturn s id fd flags error peer).router = routerConnectEnd s.router ∧
      ∃ l : LibPc, l.idle = true ∧ (libReturn s id fd flags error peer).threads = s.threads.set id l := by
  unfold libReturn
  split <;> exact ⟨rfl, _, rfl, rfl⟩

theorem loop_none (s : LibProc) (id : Nat) (fd : Fd) (flags : BitVec 32) (hint : UInt32) (error : Int) :
    libLoop s id fd flags hint error none = libReturn s id fd flags error none := rfl

theorem loop_some (hr : s.router = plain r) (hd : r.dst[i]? = some d) (id : Nat) (fd : Fd) (flags : BitVec 32)
    (hint : UInt32) (error : Int) :
    libLoop s id fd flags hint error (some i) = s.goto id (.dialling fd flags hint i d.dst.addr) := by
  have ha : s.router.addrAt (some i) = some d.dst.addr := by
    rw [hr]
    simp only [Router.addrAt, Option.bind_some, plain_get, hd, Option.map_some]
    rfl
  unfold libLoop
  rw [Option.bind_some, ha]
  rfl

/-- The loop of `router_connect_dst` goes on alike in both, from a choice that the step
`op` of the daemon's router made. -/
theorem loop_mirrors {op : SysOp} {s' : LibProc} {ret : Option Nat} (h : LibMirrors s a) (hpc : a.threads[id]? = some pc)
    (hsome : ∀ i, ret = some i → sysStep cnf a op = some (a.hold id r hint i) ∧ ∃ d, r.dst[i]? = some d)
    (hnone : ret = none → sysStep cnf a op = some { a.goto id .out with router := routerConnectEnd r })
    (hr : s'.router = plain r) (ht : s'.threads = s.threads) (fd : Fd) (flags : BitVec 32) (error : Int) :
    ∃ b, exec (sysStep cnf) a (op :: if ret.isSome then [.dial id] else []) = some b ∧
      LibMirrors (libLoop s' id fd flags hint error ret) b := by
  cases ret with
  | none =>
    have hstep := hnone rfl
    obtain ⟨hrouter, l, hl, hthreads⟩ := return_frame s' id fd flags error none
    refine ⟨_, exec_one hstep, step_held h.held hstep, h.alone, ?_, ?_⟩
    · rw [loop_none, hrouter, hr]
      rfl
    · rw [loop_none, hthreads, ht]
      exact stands_set h.threads (.idle hl rfl) id
  | some i =>
    obtain ⟨hstep, d, hd⟩ := hsome i rfl
    have hin : id < a.threads.length := (List.getElem?_eq_some_iff.mp hpc).1
    have hdial : sysStep cnf (a.hold id r hint i) (.dial id) =
        some ((a.hold id r hint i).goto id (.dialled ⟨a.base, i⟩ hint (r.addrAt (some i)) d.dst.addr)) := by
      have hpc' : (a.hold id r hint i).threads[id]? = some (.holding ⟨a.base, i⟩ hint (r.addrAt (some i))) := by
        simp [RouterSys.hold, RouterSys.goto, hin]
      have hslot : (a.hold id r hint i).slot ⟨a.base, i⟩ = some d := by
        simp [RouterSys.hold, RouterSys.goto, RouterSys.slot, hd]
      simp only [sysStep, sysDial, hpc', hslot]
    refine ⟨_, ?_, step_held (step_held h.held hstep) hdial, h.alone, ?_, ?_⟩
    · simp only [Option.isSome_some, if_true, exec_cons, hstep, Option.bind_some, hdial]
      rfl
    · rw [loop_some hr hd]
      exact hr
    · rw [loop_some hr hd]
      show ∀ j : Nat, SamePlace ((s'.threads.set id _)[j]?) (((a.threads.set id _).set id _)[j]?)
      rw [ht, List.set_set]
      intro j
      apply stands_set h.threads
      exact .dialling rfl

/-- A call that is over at once leaves the thread between two calls. -/
theorem LibMirrors.over {l l' : LibPc} (h : LibMirrors s a) (hpc : s.threads[id]? = some l) (hi : l.idle = true)
    (hl : l'.idle = true) : LibMirrors (s.goto id l') a := by
  obtain ⟨pc, hpc, hpi⟩ := h.idle hpc hi
  obtain ⟨hin, he⟩ := List.getElem?_eq_some_iff.mp hpc
  have hself : a.threads.set id pc = a.threads := by
    rw [← he]
    exact List.set_getElem_self hin
  refine ⟨h.held, h.alone, h.router, fun j => ?_⟩
  have hset := stands_set h.threads (.idle hl hpi) id j
  rw [hself] at hset
  exact hset

theorem lib_step_mirrors (hp : cnf.policy ≠ .least) (h : LibMirrors s a) (hstep : libStep cnf incAddr s op = some t) :
    ∃ b, exec (sysStep cnf) a (mirror cnf incAddr s op) = some b ∧ LibMirrors t b := by
  cases lib_turn_cases hstep with
  | passes hpc hi hm => exact ⟨a, by simp [mirror, hm, exec], h.over hpc hi rfl⟩
  | badFd hpc hi hm hf => exact ⟨a, by simp [mirror, hf, exec], h.over hpc hi rfl⟩
  | starts hpc hi hm hf hr =>
    obtain ⟨pc, hpc', hpi⟩ := h.idle hpc hi
    have hstart := hr
    rw [h.router, plain_start hp] at hstart
    generalize hq : routerConnectStart cnf _ a.router s.seed = x at hstart
    obtain ⟨q, ret⟩ := x
    obtain ⟨rfl, rfl⟩ := Prod.mk.inj hstart
    simp only [mirror, hm, hf, hr, Option.isSome_some, Bool.and_self, if_true]
    apply loop_mirrors h hpc'
    · rintro i rfl
      exact ⟨by simp only [sysStep, sysConnect, hpc', hpi, if_true, hq], choose_slot hq⟩
    · rintro rfl
      simp only [sysStep, sysConnect, hpc', hpi, if_true, hq]
    · rfl
    · exact begun_threads cnf s _ _ _ _
  | retries hpc he hr =>
    obtain ⟨p, chose, hpc', rfl⟩ := h.dialled hpc
    obtain ⟨_, hslot⟩ := h.held.slots _ (List.mem_of_getElem? hpc')
    obtain ⟨d, hd, _, _⟩ := slot_get hslot
    have hretry := hr
    rw [h.router, plain_retry hp] at hretry
    generalize hq : routerConnectRetry cnf _ _ a.router _ p.idx = x at hretry
    obtain ⟨q, ret⟩ := x
    obtain ⟨rfl, rfl⟩ := Prod.mk.inj hretry
    simp only [mirror, hpc, hr, eq_true he, true_and]
    apply loop_mirrors h hpc'
    · rintro i rfl
      exact ⟨by simp only [sysStep, sysConnected, hpc', hd, if_pos he, hq], choose_slot hq⟩
    · rintro rfl
      simp only [sysStep, sysConnected, hpc', hd, if_pos he, hq]
    · rfl
    · rfl
  | @connects id error now env next fd flags hint i peer hpc he =>
    obtain ⟨p, chose, hpc', rfl⟩ := h.dialled hpc
    obtain ⟨_, hslot⟩ := h.held.slots _ (List.mem_of_getElem? hpc')
    obtain ⟨d, hd, _, _⟩ := slot_get hslot
    have hsys : sysStep cnf a (.connected id error now env) =
        some { a.goto id (.done d.dst.addr peer) with router := routerConnectEnd a.router } := by
      simp only [sysStep, sysConnected, hpc', hd, if_neg he]
    obtain ⟨hrouter, l, hl, hthreads⟩ := return_frame s id fd flags error (some peer)
    have hmirror : mirror cnf incAddr s (.connected id error now env next) = [.connected id error now env] := by
      simp only [mirror, hpc, he, false_and, if_false]
    refine ⟨_, hmirror ▸ exec_one hsys, step_held h.held hsys, h.alone, ?_, ?_⟩
    · rw [hrouter, h.router]
      rfl
    · rw [hthreads]
      exact stands_set h.threads (.idle hl rfl) id
  | @changes dst env ctx hw =>
    rw [h.router, plain_waits] at hw
    have hsys : sysStep cnf a (.change env dst ctx) =
        some (a.changed env (glbRouterChangeDst cnf env a.router dst ctx).1) := by
      simp [sysStep, sysChange, h.alone, hw]
    refine ⟨_, exec_one hsys, step_held h.held hsys, rfl, ?_, h.threads⟩
    rw [h.router, plain_change]
    rfl
  | sets => exact ⟨a, rfl, h.held, h.alone, h.router, h.threads⟩

theorem mirrors_init (n : Nat) (seed : UInt32) (flags : Fd → Option (BitVec 32)) :
    LibMirrors (LibProc.init n seed flags) (RouterSys.init n) := by
  refine ⟨held_init n, rfl, rfl, fun id => ?_⟩
  simp only [LibProc.init, RouterSys.init, List.getElem?_replicate]
  split
  · exact .idle rfl rfl
  · exact .absent

/-- Any run of a process with the library, whatever its threads do, is one of the daemon's
router code with the counts erased: at every point the tables agree, and a thread is
inside `connect ()` for the address it would be inside it for there. -/
theorem lib_refines_router (hp : cnf.policy ≠ .least) (n : Nat) (seed : UInt32) (flags : Fd → Option (BitVec 32))
    (ops : List LibOp) (h : exec (libStep cnf incAddr) (LibProc.init n seed flags) ops = some s) :
    ∃ a, exec (sysStep cnf) (RouterSys.init n)
        (translate (libStep cnf incAddr) (mirror cnf incAddr) (LibProc.init n seed flags) ops) = some a ∧
      s.router = plain a.router ∧ ∀ id : Nat, SamePlace (s.threads[id]?) (a.threads[id]?) := by
  obtain ⟨a, ha, hm⟩ := exec_translates (fun _ _ _ _ => lib_step_mirrors hp) (mirrors_init n seed flags) h
  exact ⟨a, ha, hm.router, hm.threads⟩

/- What concrete runs of a process are made of. -/

def balanced : SockAddr := ⟨2, 3306, ⟨127, 0, 0, 1⟩, 0⟩

def nonblocking : Fd → Option (BitVec 32) := fun _ => some oNonblock

def callAt (now : Int) (id : Nat) (fd : Fd) : LibOp := .connect id fd balanced (chooseAt now) 0 (0, 0) 9

def libReached (cnf : Cnf) (n : Nat) (ops : List LibOp) : LibProc :=
  (exec (libStep cnf balanced) (LibProc.init n 5 nonblocking) ops).getD (LibProc.init n 5 nonblocking)

def bothServers : Cnf := { roundRobin with top := false }

def listTwo : List LibOp :=
  [.change ⟨100, 100, true⟩ ⟨serverA, 1⟩ none, .change ⟨100, 100, true⟩ ⟨serverB, 2⟩ none]

/-- Two threads connect; the first is refused by A and goes on to B while the second is
still connecting. -/
def twoCallers : List LibOp := listTwo ++ [callAt 100 0 7, callAt 100 1 8, .connected 0 111 100 (chooseAt 100) 0]

theorem lib_refines_router_two_callers :
    (libReached bothServers 2 twoCallers).threads =
        [.dialling 7 oNonblock 5 1 serverB, .dialling 8 oNonblock 5 1 serverB] ∧
      ∃ a, exec (sysStep bothServers) (RouterSys.init 2)
          (translate (libStep bothServers balanced) (mirror bothServers balanced) (LibProc.init 2 5 nonblocking)
            twoCallers) = some a ∧
        (libReached bothServers 2 twoCallers).router = plain a.router ∧
        ∀ id : Nat, SamePlace ((libReached bothServers 2 twoCallers).threads[id]?) (a.threads[id]?) :=
  ⟨by decide +kernel, lib_refines_router (by decide) 2 5 nonblocking twoCallers (exec_getD _ (by decide +kernel))⟩

end mirror

end Glb.Proofs.LibRouter
