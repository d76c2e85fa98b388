import Glb.Proofs.RouterTable
import Glb.Proofs.TopDst

namespace Glb.Proofs.Sticky
open Lib.Run Lib.SwapRemove RouterFrame RouterCore RouterRun RouterTable TopDst

variable {cnf : Cnf} {r r' : Router} {d : RouterDst} {ds : List RouterDst} {i : Nat} {now retry : Int}
variable {t : Dst} {env env' : ChooseEnv} {hint hint' : UInt32}

/-- No destination that may be chosen is strictly heavier than `t`. -/
def Unbeaten (ds : List RouterDst) (now retry : Int) (t : Dst) : Prop :=
  ∀ d ∈ ds, routerDstIsGoodBase d now retry = true → d.dst.weight < t.weight * redoTopFactor

/-- A scan from nothing gets to `t` without finding its equal. -/
def Foremost (ds : List RouterDst) (now retry : Int) (t : Dst) : Prop :=
  glbDblEpsilon * redoTopFactor ≤ t.weight ∧
    ∀ d ∈ ds.takeWhile (fun d => d.dst.addr ≠ t.addr), routerDstIsGoodBase d now retry = true →
      d.dst.weight * redoTopFactor ≤ t.weight

/-- Nothing is done to `t` itself, every recomputation of the top destination finds `t`
unbeaten, and one that starts from nothing finds it foremost. -/
def StickOk (cnf : Cnf) (t : Dst) (r : Router) : RouterOp → Prop
  | .change env dst probeCtx => ∀ r' ∈ routerEdit env r dst probeCtx, dst.addr ≠ t.addr ∧
      Unbeaten r'.dst env.now (routerRetryInterval cnf) t ∧
      (r'.topDst = none → Foremost r'.dst env.now (routerRetryInterval cnf) t)
  | .choose env _ => TopExpired cnf r env.now → Unbeaten r.dst env.now (routerRetryInterval cnf) t
  | .disconnect _ dst failed => failed = true → dst ≠ t.addr
  | .chooseAgain now env _ dst => dst ≠ t.addr ∧
      (TopExpired cnf (glbRouterDisconnect cnf now r dst true) env.now →
        Unbeaten (glbRouterDisconnect cnf now r dst true).dst env.now (routerRetryInterval cnf) t)

instance (ds : List RouterDst) (now retry : Int) (t : Dst) : Decidable (Unbeaten ds now retry t) :=
  inferInstanceAs (Decidable (∀ d ∈ ds, _ → _))

instance (ds : List RouterDst) (now retry : Int) (t : Dst) : Decidable (Foremost ds now retry t) :=
  inferInstanceAs (Decidable (_ ∧ ∀ d ∈ ds.takeWhile _, _ → _))

instance (cnf : Cnf) (t : Dst) (r : Router) : (op : RouterOp) → Decidable (StickOk cnf t r op)
  | .change env dst probeCtx =>
    inferInstanceAs (Decidable (∀ r' ∈ routerEdit env r dst probeCtx, _ ∧ _ ∧ (_ → _)))
  | .choose _ _ => inferInstanceAs (Decidable (_ → _))
  | .disconnect _ _ _ => inferInstanceAs (Decidable (_ → _))
  | .chooseAgain _ _ _ _ => inferInstanceAs (Decidable (_ ∧ (_ → _)))

section scan

/-- A scan that meets nothing heavier by the factor ends as it started. -/
theorem redo_top_loop_keeps (k : Nat) (top : Option Nat) (m : ℚ)
    (h : ∀ d ∈ ds, routerDstIsGoodBase d now retry = true → d.dst.weight < m * redoTopFactor) :
    redoTopLoop now retry ds k (top, m) = (top, m) := by
  induction ds generalizing k with
  | nil => rfl
  | cons d ds ih =>
    have hd : routerDstIsGood d (m * redoTopFactor) now retry = false := by
      cases hb : routerDstIsGoodBase d now retry with
      | false => simp [routerDstIsGood, hb]
      | true => simpa [routerDstIsGood, hb] using h d (by simp) hb
    simp only [redoTopLoop, hd, Bool.false_eq_true, ↓reduceIte]
    exact ih (k + 1) (fun e he => h e (by simp [he]))

/-- The scan takes a destination that outweighs everything before it, and stays
with it. -/
theorem redo_top_loop_takes (pre post : List RouterDst) (k : Nat) (top : Option Nat) (m : ℚ)
    (hg : routerDstIsGoodBase d now retry = true) (hm : m * redoTopFactor ≤ d.dst.weight)
    (hpre : ∀ e ∈ pre, routerDstIsGoodBase e now retry = true →
      e.dst.weight * redoTopFactor ≤ d.dst.weight)
    (hpost : ∀ e ∈ post, routerDstIsGoodBase e now retry = true →
      e.dst.weight < d.dst.weight * redoTopFactor) :
    redoTopLoop now retry (pre ++ d :: post) k (top, m) = (some (k + pre.length), d.dst.weight) := by
  induction pre generalizing k top m with
  | nil =>
    have hd : routerDstIsGood d (m * redoTopFactor) now retry = true := by
      simp [routerDstIsGood, hg, hm]
    simp only [List.nil_append, redoTopLoop, hd, ↓reduceIte]
    exact redo_top_loop_keeps (k + 1) (some k) d.dst.weight hpost
  | cons e pre ih =>
    have hrest : ∀ e ∈ pre, routerDstIsGoodBase e now retry = true →
        e.dst.weight * redoTopFactor ≤ d.dst.weight := fun x hx => hpre x (by simp [hx])
    simp only [List.cons_append, redoTopLoop]
    rw [List.length_cons, Nat.add_comm pre.length 1, ← Nat.add_assoc]
    split
    · rename_i he
      rw [good_iff] at he
      exact ih (k + 1) (some k) e.dst.weight (hpre e (by simp) he.2) hrest
    · exact ih (k + 1) top m hm hrest

/-- Addresses are listed once, so what comes before an entry is what comes before its
address. -/
theorem split_at (hn : (ds.map dstAddr).Nodup) (hd : d ∈ ds) :
    ∃ post, ds = ds.takeWhile (fun e => e.dst.addr ≠ d.dst.addr) ++ d :: post := by
  induction ds with
  | nil => cases hd
  | cons e ds ih =>
    obtain ⟨hnot, hrest⟩ := List.nodup_cons.mp hn
    by_cases he : e.dst.addr = d.dst.addr
    · have hed : e = d := List.inj_on_of_nodup_map hn (by simp) hd he
      exact ⟨ds, by simp [hed]⟩
    · rcases List.mem_cons.mp hd with rfl | hd
      · exact absurd rfl he
      · obtain ⟨post, hpost⟩ := ih hrest hd
        refine ⟨post, ?_⟩
        rw [List.takeWhile_cons_of_pos (by simpa using he), List.cons_append, ← hpost]

end scan

/-- `top_dst` points to `t`, and `t` may be chosen. -/
structure Incumbent (cnf : Cnf) (t : Dst) (r : Router) : Prop where
  weight : glbDblEpsilon ≤ t.weight
  top : ∃ i d, r.topDst = some i ∧ r.dst[i]? = some d ∧ d.dst = t ∧
    routerDstIsGoodBase d r.ctx.now (routerRetryInterval cnf) = true

theorem alike_incumbent (h : Alike r r') (hi : Incumbent cnf t r) : Incumbent cnf t r' := by
  obtain ⟨i, d, ht, hd, hdt, hg⟩ := hi.top
  obtain ⟨e, he, hrow⟩ := h.symm.get hd
  obtain ⟨hdst, _, hf⟩ := row_eq_iff.mp hrow
  refine ⟨hi.weight, i, e, h.topDst.trans ht, he, hdst.trans hdt, ?_⟩
  rw [h.ctx]
  simpa [routerDstIsGoodBase, hf] using hg

/-- With the context of the incumbent's time its weight is the minimal one. -/
theorem update_ctx_incumbent (hw : glbDblEpsilon ≤ t.weight) (ht : r.topDst = some i)
    (hd : r.dst[i]? = some d) (hdt : d.dst = t)
    (hg : routerDstIsGoodBase d now (routerRetryInterval cnf) = true) :
    Incumbent cnf t (routerUpdateCtx cnf now r) ∧
      (routerUpdateCtx cnf now r).ctx.minWeight = t.weight := by
  subst hdt
  refine ⟨⟨hw, i, d, ht, hd, rfl, hg⟩, ?_⟩
  simp [routerUpdateCtx, routerMinWeight, routerTopDstIsGood, Router.top, ht, hd, hw, hg]

/-- A recomputation that finds the incumbent unbeaten does nothing. -/
theorem redo_top_unbeaten (hm : r.ctx.minWeight = t.weight)
    (hu : Unbeaten r.dst r.ctx.now r.ctx.retry t) : routerRedoTop r = r := by
  simp only [routerRedoTop, hm, redo_top_loop_keeps 0 r.topDst t.weight hu]
  rw [← hm]

theorem redo_kept (hc : cnf.top = true) (hp : routerUsesMap cnf = false)
    (hw : glbDblEpsilon ≤ t.weight) (ht : r.topDst = some i) (hd : r.dst[i]? = some d) (hdt : d.dst = t)
    (hg : routerDstIsGoodBase d now (routerRetryInterval cnf) = true)
    (hu : Unbeaten r.dst now (routerRetryInterval cnf) t) : Incumbent cnf t (routerRedo cnf now r) := by
  obtain ⟨hi, hm⟩ := update_ctx_incumbent hw ht hd hdt hg
  simp only [routerRedo, hc, hp, ↓reduceIte, Bool.false_eq_true]
  rwa [redo_top_unbeaten hm hu]

/-- A recomputation from nothing finds the old incumbent again. -/
theorem redo_found (hc : cnf.top = true) (hp : routerUsesMap cnf = false) (hn : Unique r)
    (ht : r.topDst = none) (hd : d ∈ r.dst) (hdt : d.dst = t) (hw : glbDblEpsilon ≤ t.weight)
    (hg : routerDstIsGoodBase d now (routerRetryInterval cnf) = true)
    (hu : Unbeaten r.dst now (routerRetryInterval cnf) t)
    (hf : Foremost r.dst now (routerRetryInterval cnf) t) : Incumbent cnf t (routerRedo cnf now r) := by
  subst hdt
  obtain ⟨post, hsplit⟩ := split_at hn hd
  obtain ⟨heps, hbefore⟩ := hf
  generalize r.dst.takeWhile (fun e => e.dst.addr ≠ d.dst.addr) = pre at hsplit hbefore
  have hmin : (routerUpdateCtx cnf now r).ctx.minWeight = glbDblEpsilon := by
    simp [routerUpdateCtx, routerMinWeight, Router.top, ht]
  have hloop := redo_top_loop_takes pre post 0 none glbDblEpsilon hg heps hbefore
    (fun e he => hu e (by rw [hsplit]; simp [he]))
  rw [Nat.zero_add, ← hsplit] at hloop
  simp only [routerRedo, hc, hp, ↓reduceIte, Bool.false_eq_true]
  refine ⟨hw, pre.length, d, ?_, ?_, rfl, hg⟩
  · have htop : (routerUpdateCtx cnf now r).topDst = none := ht
    rw [routerRedoTop, hmin, htop]
    exact congrArg Prod.fst hloop
  · change r.dst[pre.length]? = some d
    rw [hsplit]
    simp

section steps

theorem change_incumbent (hc : cnf.top = true) (hp : routerUsesMap cnf = false) {cenv : ChangeEnv}
    (hs : TableSound r) (hi : Incumbent cnf t r) (hclock : r.ctx.now ≤ cenv.now)
    (hok : StickOk cnf t r (.change cenv dst ctx)) (he : routerEdit cenv r dst ctx = some r') :
    Incumbent cnf t (routerRedo cnf cenv.now r') := by
  obtain ⟨hne, hu, hfore⟩ := hok r' he
  obtain ⟨i, d, ht, hd, hdt, hg⟩ := hi.top
  have hlater := good_base_later hg hclock
  have hunique := (edit_sound hs (edit_cases he)).unique
  cases edit_cases he with
  | added _ _ _ =>
    exact redo_found hc hp hunique rfl (List.mem_append_left _ (List.mem_of_getElem? hd)) hdt hi.weight
      hlater hu (hfore rfl)
  | noMemory _ _ _ => exact redo_kept hc hp hi.weight ht hd hdt hlater hu
  | @removed j e _ hj ha _ =>
    have hmem : d ∈ swapRemove r.dst j := by
      have hd' := (swapRemove_perm r.dst j e hj).mem_iff.mp (List.mem_of_getElem? hd)
      rcases List.mem_cons.mp hd' with rfl | hd'
      · exact absurd (by rw [← ha, hdt]) hne
      · exact hd'
    exact redo_found hc hp hunique rfl hmem hdt hi.weight hlater hu (hfore rfl)
  | @weighed j e _ hj ha _ _ =>
    have hij : j ≠ i := by
      rintro rfl
      rw [hd, Option.some.injEq] at hj
      exact hne (by rw [← ha, ← hj, hdt])
    refine redo_kept hc hp hi.weight ht ?_ hdt hlater hu
    simpa [routerSetWeight, List.getElem?_modify, hij] using hd

theorem prepare_incumbent (hi : Incumbent cnf t r) (hclock : r.ctx.now ≤ now)
    (hok : TopExpired cnf r now → Unbeaten r.dst now (routerRetryInterval cnf) t) :
    Incumbent cnf t (routerPrepare cnf now r) := by
  obtain ⟨i, d, ht, hd, hdt, hg⟩ := hi.top
  obtain ⟨hi', hm⟩ := update_ctx_incumbent hi.weight ht hd hdt (good_base_later hg hclock)
  rcases prepare_cases cnf now r with ⟨_, hx, hp⟩ | ⟨_, hp⟩ <;> rw [hp]
  · rw [redo_top_unbeaten hm (hok hx)]
    exact ⟨hi'.weight, hi'.top⟩
  · exact hi'

/-- The failure of another destination leaves the incumbent alone. -/
theorem failed_incumbent (hp : routerUsesMap cnf = false) (hi : Incumbent cnf t r)
    (hclock : r.ctx.now ≤ now) (ht : r.topDst ≠ some i) : Incumbent cnf t (routerDstFailed cnf now r i) := by
  obtain ⟨j, d, htop, hd, hdt, hg⟩ := hi.top
  have hij : i ≠ j := fun he => ht (he ▸ htop)
  have hmark : (r.dst.modify i (fun d => { d with failed := now }))[j]? = some d := by
    simpa [List.getElem?_modify, hij] using hd
  have hstamped : Incumbent cnf t (stamped cnf now r i) :=
    ⟨hi.weight, j, d, htop, hmark, hdt, good_base_later hg hclock⟩
  have hf := failed_cases cnf now r i
  generalize routerDstFailed cnf now r i = q at hf ⊢
  cases hf with
  | unlisted _ => exact hi
  | wasBad _ _ => exact hstamped
  | retops _ _ _ =>
    rw [retopped, if_neg ht]
    exact hstamped
  | remaps _ _ hu => simp [hp] at hu

theorem step_incumbent (hc : cnf.top = true) (hp : routerUsesMap cnf = false) (he : cnf.extra = 0) :
    ∀ r op r', Incumbent cnf t r → (TableSound r ∧ ClockOk r op ∧ StickOk cnf t r op) →
      routerStep cnf r op = some r' → Incumbent cnf t r' := by
  refine step_keeps (Incumbent cnf t) (fun r op => TableSound r ∧ ClockOk r op ∧ StickOk cnf t r op) he
    ?_ ?_ ?_ ?_ ?_
  · intro r r' h
    exact alike_incumbent h
  · intro r cenv dst ctx r' hi hok hr
    exact change_incumbent hc hp hok.1 hi hok.2.1 hok.2.2 hr
  · intro r env hint hi hok
    rw [ready_plain hp]
    exact prepare_incumbent hi hok.2.1 hok.2.2
  · intro r now addr i hi hok hf
    obtain ⟨j, d, htop, hd, hdt, _⟩ := hi.top
    apply failed_incumbent hp (alike_incumbent (count_alike r i (-1)) hi) hok.2.1
    intro ht
    -- the entry found by address is not the incumbent's
    rw [show (r.count i (-1)).topDst = r.topDst from rfl, htop, Option.some.injEq] at ht
    subst ht
    obtain ⟨hj, hpred, _⟩ := List.findIdx?_eq_some_iff_getElem.mp hf
    have hdj : r.dst[j] = d := by simpa [List.getElem?_eq_getElem hj] using hd
    rw [hdj, hdt, glbSockaddrIsEqual, decide_eq_true_eq] at hpred
    exact hok.2.2 rfl hpred.symm
  · rintro r now env hint addr ⟨hs, hclock, hne, hu⟩
    obtain ⟨h1, h2⟩ := clock_again cnf hclock
    exact ⟨⟨hs, h1, fun _ => hne⟩, (disconnect_routes cnf now addr true hs).sound hs, h2, hu⟩

end steps

section choice

/-- Policy SINGLE leaves the table it decides on. -/
theorem single_alike (env : ChooseEnv) (r : Router) (hint : UInt32) (hpol : cnf.policy = .single)
    (he : cnf.extra = 0) :
    Alike (routerPrepare cnf env.now r) (routerChooseDst cnf env r hint).1 := by
  have hready := ready_plain (plain_policy (.inr (.inr hpol))) (routerPrepare cnf env.now r)
  exact hready ▸ choose_alike he env r hint

theorem single_returns (hpol : cnf.policy = .single) :
    (routerChooseDst cnf env r hint).2 = routerChooseDstSingle (routerPrepare cnf env.now r) := by
  rw [choose_returns, routerPolicy, hpol]

theorem choose_incumbent (hpol : cnf.policy = .single) (he : cnf.extra = 0)
    (hi : Incumbent cnf t (routerPrepare cnf env.now r)) :
    (glbRouterChooseDst cnf env r hint).2 = some t.addr := by
  obtain ⟨i, d, ht, hd, hdt, hg⟩ := hi.top
  obtain ⟨e, hget, hrow⟩ := (single_alike env r hint hpol he).symm.get hd
  have hgood : routerTopDstIsGood (routerPrepare cnf env.now r) = true := by
    simp [routerTopDstIsGood, Router.top, ht, hd, hdt, hi.weight, (prepare_dst cnf env.now r).2.2, hg]
  have hret : (routerChooseDst cnf env r hint).2 = some i := by
    rw [single_returns hpol, routerChooseDstSingle, hgood, ht]
    rfl
  change (routerChooseDst cnf env r hint).1.addrAt (routerChooseDst cnf env r hint).2 = _
  rw [hret]
  simp [Router.addrAt, hget, (row_eq_iff.mp hrow).1, hdt]

/-- What a choice returned is the incumbent from then on. -/
theorem chosen_incumbent (hpol : cnf.policy = .single) (he : cnf.extra = 0) (hn : Unique r)
    (hmem : t ∈ r.dst.map RouterDst.dst) (hret : (glbRouterChooseDst cnf env r hint).2 = some t.addr) :
    Incumbent cnf t (glbRouterChooseDst cnf env r hint).1 := by
  have halike := single_alike env r hint hpol he
  apply alike_incumbent halike
  change (routerChooseDst cnf env r hint).1.addrAt (routerChooseDst cnf env r hint).2 = _ at hret
  rw [single_returns hpol, routerChooseDstSingle] at hret
  split at hret
  · rename_i hgood
    unfold routerTopDstIsGood at hgood
    cases htop : (routerPrepare cnf env.now r).top with
    | none => simp [htop] at hgood
    | some d =>
      simp only [htop, ge_iff_le, Bool.and_eq_true, decide_eq_true_eq, (prepare_dst cnf env.now r).2.2] at hgood
      obtain ⟨i, hi, hd⟩ := Option.bind_eq_some_iff.mp htop
      obtain ⟨e, hget, hrow⟩ := halike.symm.get hd
      have haddr : d.dst.addr = t.addr := by
        simpa [Router.addrAt, hi, hget, (row_eq_iff.mp hrow).1] using hret
      have hdt : d.dst = t := by
        obtain ⟨x, hx, rfl⟩ := List.mem_map.mp hmem
        rw [(prepare_dst cnf env.now r).1] at hd
        rw [List.inj_on_of_nodup_map hn (List.mem_of_getElem? hd) hx haddr]
      exact ⟨hdt ▸ hgood.1, i, d, hi, hd, hdt, hgood.2⟩
  · simp [Router.addrAt] at hret

end choice

/-- A choice that returned `t` is followed by calls that meet the condition. As long as
nothing that may be chosen is strictly heavier, the next choice returns `t` again. -/
theorem single_sticky (hpol : cnf.policy = .single) (hc : cnf.top = true) (he : cnf.extra = 0)
    (hbefore : exec (routerStep cnf) Router.init ops = some r)
    (hmem : t ∈ r.dst.map RouterDst.dst) (hret : (glbRouterChooseDst cnf env r hint).2 = some t.addr)
    (hok : Along (routerStep cnf) (fun r op => ClockOk r op ∧ StickOk cnf t r op)
      (glbRouterChooseDst cnf env r hint).1 ops')
    (hrun : exec (routerStep cnf) (glbRouterChooseDst cnf env r hint).1 ops' = some r')
    (hclock : ClockOk r' (.choose env' hint'))
    (hu : Unbeaten r'.dst env'.now (routerRetryInterval cnf) t) :
    (glbRouterChooseDst cnf env' r' hint').2 = some t.addr := by
  have hp : routerUsesMap cnf = false := by simp [routerUsesMap, hpol, Policy.toNat]
  have hs : TableSound r := exec_invariant (fun _ _ _ => step_table_sound) sound_init hbefore
  have hs1 : TableSound (glbRouterChooseDst cnf env r hint).1 := (choose_routes hs rfl).sound hs
  have hi1 := chosen_incumbent hpol he hs.unique hmem hret
  have hstep : ∀ q op q', (TableSound q ∧ Incumbent cnf t q) → (ClockOk q op ∧ StickOk cnf t q op) →
      routerStep cnf q op = some q' → (TableSound q' ∧ Incumbent cnf t q') := by
    rintro q op q' ⟨hsq, hiq⟩ ⟨hcl, hst⟩ hq
    exact ⟨step_table_sound hsq hq, step_incumbent hc hp he q op q' hiq ⟨hsq, hcl, hst⟩ hq⟩
  obtain ⟨_, hi⟩ := exec_keeps hstep ⟨hs1, hi1⟩ hok hrun
  exact choose_incumbent hpol he (prepare_incumbent hi hclock (fun _ => hu))

def twoServers : List RouterOp := [setAt 100 serverB 2, setAt 100 serverA 1]

/-- An equal of B comes, fails and goes, and A goes too. -/
def comeAndGo : List RouterOp :=
  [setAt 101 serverC 2, .choose (chooseAt 101) 0, .disconnect 102 serverC true, setAt 103 serverA (-1),
    setAt 104 serverC 1, setAt 105 serverC (-1)]

theorem single_sticky_come_and_go :
    (glbRouterChooseDst singleTop (chooseAt 106)
      (reached singleTop (twoServers ++ .choose (chooseAt 100) 0 :: comeAndGo)) 0).2 = some serverB := by
  let t : Dst := ⟨serverB, 2⟩
  let r := reached singleTop twoServers
  have hret : (glbRouterChooseDst singleTop (chooseAt 100) r 0).2 = some t.addr := by decide +kernel
  have hok : Along (routerStep singleTop) (fun r op => ClockOk r op ∧ StickOk singleTop t r op)
      (glbRouterChooseDst singleTop (chooseAt 100) r 0).1 comeAndGo := by decide +kernel
  exact single_sticky rfl rfl rfl (exec_getD Router.init (by decide +kernel)) (by decide +kernel) hret hok
    (by decide +kernel) (by decide +kernel) (by decide +kernel)

/-- A fails and B takes over. -/
def takeOver : List RouterOp :=
  [setAt 100 serverA 1, setAt 100 serverB 1, .choose (chooseAt 100) 0, .disconnect 101 serverA true]

/-- A has recovered when the drained C is listed, and the scan from nothing comes to A
first. -/
def unrelated : List RouterOp := [setAt 104 serverC 0]

theorem single_not_sticky_unrelated :
    (glbRouterChooseDst singleTop (chooseAt 101) (reached singleTop takeOver) 0).2 = some serverB ∧
    Along (routerStep singleTop) ClockOk Router.init (takeOver ++ .choose (chooseAt 101) 0 :: unrelated) ∧
    Unbeaten (reached singleTop (takeOver ++ .choose (chooseAt 101) 0 :: unrelated)).dst 104
      (routerRetryInterval singleTop) ⟨serverB, 1⟩ ∧
    (glbRouterChooseDst singleTop (chooseAt 104)
      (reached singleTop (takeOver ++ .choose (chooseAt 101) 0 :: unrelated)) 0).2 = some serverA := by
  refine ⟨?_, ?_, ?_, ?_⟩
  all_goals decide +kernel

end Glb.Proofs.Sticky
