import Glb.Proofs.ExtraChecks
import Glb.Proofs.Removal
import Glb.Proofs.RouterSum
import Glb.Proofs.Spread

namespace Glb.Proofs.SecondChoice
open Lib.Keyed Lib.Run RouterFrame RouterCore RouterRun RouterTable TopDst MapShare Selection ExtraChecks Spread
open HeldSlot RouterSum Registry LiveConns

variable {cnf : Cnf} {now : Int} {env : ChooseEnv} {r q : Router} {d e : RouterDst} {i j : Nat}
variable {hint : UInt32} {a : SockAddr}

/-- The two asserts of `glb_router_choose_dst_again`: the destination was found, and
what it lost the next one has. -/
def AssertsHold (cnf : Cnf) (now : Int) (env : ChooseEnv) (r : Router) (hint : UInt32) (a : SockAddr) :
    Prop :=
  let q := routerDisconnect cnf now r a true
  q.2 ≠ q.1.dst.length ∧ (routerChooseDst cnf env q.1 hint).1.conns = r.conns

instance : Decidable (AssertsHold cnf now env r hint a) := inferInstanceAs (Decidable (_ ∧ _))

/-- A choice counts one connection if it finds a destination. -/
theorem choose_conns (cnf : Cnf) (env : ChooseEnv) (r : Router) (hint : UInt32) :
    (routerChooseDst cnf env r hint).1.conns =
      r.conns + if (routerChooseDst cnf env r hint).2.isSome then 1 else 0 := by
  rcases choose_picked (Prod.mk.eta (p := routerChooseDst cnf env r hint)).symm with
    ⟨hn, hp⟩ | ⟨q, i, hi, hp, hq⟩
  · rw [hn, hp.same.conns]
    simp
  · rw [hi, hq]
    simp [Router.count, hp.same.conns]

/-- The router between the failure report and the next choice. -/
def undo (cnf : Cnf) (now : Int) (r : Router) (i : Nat) : Router :=
  routerDstFailed cnf now (r.count i (-1)) i

theorem disconnect_listed (hu : Unique r) (hd : r.dst[i]? = some d) (ha : d.dst.addr = a) :
    routerDisconnect cnf now r a true = (undo cnf now r i, i) := by
  have hf : r.dst.findIdx? (fun d => glbSockaddrIsEqual d.dst.addr a) = some i := by
    obtain ⟨hi, rfl⟩ := List.getElem?_eq_some_iff.mp hd
    rw [List.findIdx?_eq_some_iff_getElem]
    refine ⟨hi, by simp [glbSockaddrIsEqual, ha], ?_⟩
    intro j hj hja
    have hj' := List.getElem?_eq_getElem (lt_trans hj hi)
    have hja : r.dst[j].dst.addr = a := by simpa [glbSockaddrIsEqual] using hja
    have hij := key_inj hu hd hj' (hja.trans ha.symm)
    omega
  simp [routerDisconnect, hf, undo]

/-- The asserts hold exactly if the destination is listed and another choice finds
one. -/
theorem asserts_iff (hu : Unique r) (hd : r.dst[i]? = some d) (ha : d.dst.addr = a) :
    AssertsHold cnf now env r hint a ↔ (routerChooseDst cnf env (undo cnf now r i) hint).2.isSome := by
  have hconns : (undo cnf now r i).conns = r.conns - 1 := by
    rw [undo, (failed_core cnf now _ i).conns]
    rfl
  have hlen : (undo cnf now r i).dst.length = r.dst.length := by
    rw [undo, (failed_core cnf now _ i).length]
    simp [Router.count]
  have hi := (List.getElem?_eq_some_iff.mp hd).1
  unfold AssertsHold
  rw [disconnect_listed hu hd ha]
  simp only
  rw [hlen, choose_conns, hconns]
  constructor
  · rintro ⟨_, hc⟩
    by_contra hnone
    rw [if_neg hnone] at hc
    omega
  · intro hs
    rw [if_pos hs]
    exact ⟨by omega, by omega⟩

/-- A destination as an attempt that failed leaves it. -/
def undone (now : Int) (d : RouterDst) : RouterDst :=
  { d with
    conns := d.conns + -1
    usage := routerDstUsage { d with conns := d.conns + -1 }
    failed := now }

theorem marked_slot (now : Int) (r : Router) (i j : Nat) :
    (marked now (r.count i (-1)) i).dst[j]? =
      (r.dst[j]?).map (fun d => if i = j then undone now d else d) := by
  simp only [marked, Router.count, List.getElem?_modify]
  cases r.dst[j]? with
  | none => rfl
  | some d => split <;> rfl

/-- The slots that the next choice finds, up to the map. -/
theorem next_same (cnf : Cnf) (now : Int) (env : ChooseEnv) (r : Router) (i : Nat) :
    SameUpTo stem (marked now (r.count i (-1)) i) (routerPrepare cnf env.now (undo cnf now r i)) :=
  (failed_same cnf now (r.count i (-1)) i).trans (prepare_same cnf env.now _)

theorem next_slot (cnf : Cnf) (now : Int) (env : ChooseEnv) (i : Nat) (hd : r.dst[j]? = some d) :
    ∃ e, (routerPrepare cnf env.now (undo cnf now r i)).dst[j]? = some e ∧
      stem e = stem (if i = j then undone now d else d) := by
  have hm := marked_slot now r i j
  rw [hd] at hm
  exact (next_same cnf now env r i).symm.get hm

theorem slot_before (he : (routerPrepare cnf env.now (undo cnf now r i)).dst[j]? = some e) :
    ∃ d, r.dst[j]? = some d ∧ stem e = stem (if i = j then undone now d else d) := by
  obtain ⟨e', he', hst⟩ := (next_same cnf now env r i).get he
  rw [marked_slot, Option.map_eq_some_iff] at he'
  obtain ⟨d, hd, rfl⟩ := he'
  exact ⟨d, hd, hst.symm⟩

section condition
variable (cnf : Cnf) (now : Int) (env : ChooseEnv) (r : Router) (hint : UInt32) (a : SockAddr)

/-- Another destination of weight `w` or more is outside its retry window. -/
def OtherGood (w : ℚ) (now : Int) : Prop :=
  ∃ d ∈ r.dst, d.dst.addr ≠ a ∧ routerDstIsGood d w now (routerRetryInterval cnf) = true

/-- `dst_was_good` of `router_dst_failed`. -/
def WasGood : Prop :=
  ∃ d ∈ r.dst, d.dst.addr = a ∧ routerDstIsGood d r.ctx.minWeight now (routerRetryInterval cnf) = true

def IsTop : Prop := ∃ d ∈ r.top, d.dst.addr = a

/-- Each destination counts its connections, and `a` the one that failed. -/
def Counts : Prop := ∀ d ∈ r.dst, (if d.dst.addr = a then 1 else 0) ≤ d.conns

instance : Decidable (OtherGood cnf r a w now) := inferInstanceAs (Decidable (∃ d ∈ r.dst, _ ∧ _))

instance : Decidable (WasGood cnf now r a) := inferInstanceAs (Decidable (∃ d ∈ r.dst, _ ∧ _))

instance : Decidable (IsTop r a) := inferInstanceAs (Decidable (∃ d ∈ r.top, _))

instance : Decidable (Counts r a) := inferInstanceAs (Decidable (∀ d ∈ r.dst, _))

/-- A map is rebuilt with somebody in it, or the one that is there reaches past the
hint. -/
def MapReaches : Prop :=
  if WasGood cnf now r a then
    OtherGood cnf r a (if IsTop r a then glbDblEpsilon else max glbDblEpsilon r.ctx.minWeight) now
  else if r.mapFailed ≠ 0 ∧ env.now - r.mapFailed > routerRetryInterval cnf then
    OtherGood cnf r a glbDblEpsilon env.now
  else ∃ d ∈ r.dst, hintPoint (policyHint cnf env hint) < d.map

instance : Decidable (MapReaches cnf now env r hint a) := inferInstanceAs (Decidable (ite _ _ _))

/-- There is another destination for the policy to go on with. The heaviest one has to
be known for `SINGLE`, and the map for `RANDOM` and `SOURCE`. -/
def CanMove : Prop :=
  match cnf.policy with
  | .least => Counts r a ∧ OtherGood cnf r a glbDblEpsilon env.now
  | .round => OtherGood cnf r a glbDblEpsilon env.now
  | .single =>
    if IsTop r a then WasGood cnf now r a ∧ OtherGood cnf r a (glbDblEpsilon * redoTopFactor) now
    else ∃ d ∈ r.top, routerDstIsGood d glbDblEpsilon env.now (routerRetryInterval cnf) = true
  | .random => MapReaches cnf now env r hint a
  | .source => MapReaches cnf now env r hint a

instance : Decidable (CanMove cnf now env r hint a) :=
  match h : cnf.policy with
  | .least => decidable_of_iff (Counts r a ∧ OtherGood cnf r a glbDblEpsilon env.now) (by simp [CanMove, h])
  | .round => decidable_of_iff (OtherGood cnf r a glbDblEpsilon env.now) (by simp [CanMove, h])
  | .single => decidable_of_iff (if IsTop r a then
      WasGood cnf now r a ∧ OtherGood cnf r a (glbDblEpsilon * redoTopFactor) now
    else ∃ d ∈ r.top, routerDstIsGood d glbDblEpsilon env.now (routerRetryInterval cnf) = true)
    (by simp [CanMove, h])
  | .random => decidable_of_iff (MapReaches cnf now env r hint a) (by simp [CanMove, h])
  | .source => decidable_of_iff (MapReaches cnf now env r hint a) (by simp [CanMove, h])

/-- Every destination passes its extra check, if it gets one. -/
def AllPass : Prop := ∀ x ∈ r.dst.zipIdx, passes cnf env x.2 x.1 = true

instance : Decidable (AllPass cnf env r) := inferInstanceAs (Decidable (∀ x ∈ r.dst.zipIdx, _))

end condition

theorem good_mono (h : routerDstIsGood d w now retry = true) (hw : w' ≤ w) (hn : now ≤ now') :
    routerDstIsGood d w' now' retry = true := by
  rw [good_iff] at h ⊢
  exact ⟨le_trans hw h.1, good_base_later h.2 hn⟩

theorem good_stem (h : stem e = stem d) (w : ℚ) (now retry : Int) :
    routerDstIsGood e w now retry = routerDstIsGood d w now retry := by
  have h1 : e.dst = d.dst := (congrArg RouterDst.dst h :)
  have h2 : e.failed = d.failed := (congrArg RouterDst.failed h :)
  simp [routerDstIsGood, routerDstIsGoodBase, h1, h2]

theorem spare_slot (hd : r.dst[i]? = some d) (ha : d.dst.addr = a) (hs : OtherGood cnf r a w now) :
    ∃ j c, i ≠ j ∧ r.dst[j]? = some c ∧ routerDstIsGood c w now (routerRetryInterval cnf) = true := by
  obtain ⟨c, hc, hne, hg⟩ := hs
  obtain ⟨j, hj⟩ := List.mem_iff_getElem?.mp hc
  refine ⟨j, c, ?_, hj, hg⟩
  rintro rfl
  obtain rfl := Option.some.inj (hd.symm.trans hj)
  exact hne ha

/-- What is spare now is on offer in the next choice. -/
theorem spare_offered (now : Int) (hd : r.dst[i]? = some d) (ha : d.dst.addr = a) (hs : OtherGood cnf r a w env.now) :
    Offered (routerPrepare cnf env.now (undo cnf now r i)) w := by
  obtain ⟨j, c, hij, hj, hg⟩ := spare_slot hd ha hs
  obtain ⟨e, he, hst⟩ := next_slot cnf now env i hj
  rw [if_neg hij] at hst
  obtain ⟨_, hnow, hretry⟩ := prepare_dst cnf env.now (undo cnf now r i)
  refine ⟨e, List.mem_of_getElem? he, ?_⟩
  rw [hnow, hretry, good_stem hst]
  exact hg

/-- The minimal weight excludes nobody unless it is that of a good destination. -/
theorem offered_min (hm : r.ctx.minWeight = routerMinWeight r) (h : Offered r glbDblEpsilon) :
    Offered r r.ctx.minWeight := by
  cases hg : routerTopDstIsGood r with
  | false =>
    rw [hm, min_bad hg]
    exact h
  | true =>
    cases ht : r.top with
    | none => simp [routerTopDstIsGood, ht] at hg
    | some d =>
      obtain ⟨_, hbase⟩ := (top_good ht).mp hg
      refine ⟨d, top_mem ht, ?_⟩
      rw [hm, min_good ht hg]
      simp [routerDstIsGood, hbase]

section policies

theorem least_some (hp : ∀ i d, r.dst[i]? = some d → passes cnf env i d = true) (hd : d ∈ r.dst)
    (hg : routerDstIsGood d r.ctx.minWeight r.ctx.now r.ctx.retry = true) (hu : 0 < d.usage) :
    (routerChooseDstLeast cnf env r).2.isSome = true := by
  obtain ⟨_, hall, hres⟩ := least_loop_spec r.ctx r.dst 0 none 0
  unfold routerChooseDstLeast
  rcases hres with hres | ⟨j, c, hc, _, hres⟩
  · rw [hres] at hall
    exact absurd hu (not_lt.mpr (hall d hd hg))
  · have hok : (r.checkAt cnf env j).2 = true := (check_passes hc).trans (hp j c hc)
    simp [hres, hok]

theorem round_some (hp : ∀ i d, r.dst[i]? = some d → passes cnf env i d = true)
    (hc : r.rrbNext < r.dst.length) (hd : d ∈ r.dst) (hg : goodAt cnf env.now r d = true) :
    (routerChooseDstRound cnf env (routerPrepare cnf env.now r)).2.isSome = true := by
  have hright : Right cnf env r (routerChooseDstRound cnf env (routerPrepare cnf env.now r)).2 :=
    round_right.mpr (Or.inr hc)
  revert hright
  cases (routerChooseDstRound cnf env (routerPrepare cnf env.now r)).2 with
  | some i => exact fun _ => rfl
  | none =>
    intro hnone
    obtain ⟨j, hj⟩ := List.mem_iff_getElem?.mp hd
    have hno := hnone (d, j) (List.mem_zipIdx_iff_getElem?.mpr hj) hg
    rw [hp j d hj] at hno
    cases hno

theorem hint_some (hp : ∀ i d, r.dst[i]? = some d → passes cnf env i d = true)
    (hd : ∃ d ∈ (routerExpireMap cnf r).dst, hintPoint hint < d.map) :
    (routerChooseDstHint cnf env r hint).2.isSome = true := by
  obtain ⟨d, hd, hm⟩ := hd
  obtain ⟨j, hj⟩ := List.mem_iff_getElem?.mp hd
  have hsame := expire_map_same cnf r
  have hlen : r.dst.length ≠ 0 := by
    have hlt := (List.getElem?_eq_some_iff.mp hj).1
    rw [hsame.length] at hlt
    omega
  have hfirst := hint_loop_first cnf env (hintPoint hint) _ 0 (routerExpireMap cnf r) rfl
  simp only [routerChooseDstHint, hlen, ↓reduceIte]
  revert hfirst
  cases (hintLoop cnf env (hintPoint hint) (routerExpireMap cnf r).dst.length 0
    (routerExpireMap cnf r)).2 with
  | some i => exact fun _ => rfl
  | none =>
    intro hnone
    obtain ⟨c, hc, hst⟩ := hsame.get hj
    exact absurd ⟨hm, (stem_passes hst.symm j).trans (hp j c hc)⟩ (hnone j d (Nat.zero_le j) hj)

end policies

theorem next_passes (hp : AllPass cnf env r) (i : Nat) :
    ∀ j e, (routerPrepare cnf env.now (undo cnf now r i)).dst[j]? = some e →
      passes cnf env j e = true := by
  intro j e he
  obtain ⟨d, hd, hst⟩ := slot_before he
  rw [stem_passes hst]
  have hpd := hp (d, j) (List.mem_zipIdx_iff_getElem?.mpr hd)
  split
  · exact (passes_congr (e := undone now d) (d := d) rfl rfl j).trans hpd
  · exact hpd

section top

/-- A good top destination gives way only to a good one. -/
theorem redo_top_good (hm : r.ctx.minWeight = routerMinWeight r) (hg : routerTopDstIsGood r = true) :
    routerTopDstIsGood (routerRedoTop r) = true := by
  rcases (redo_top_moves hm).2 with he | ⟨j, d, hd, hgd, hj, _⟩
  · rw [he]
    exact hg
  · have ht : (routerRedoTop r).top = some d := by
      rw [Router.top, hj]
      exact hd
    have heps := epsilon_le_min r
    rw [← hm] at heps
    have hlt := lt_mul_factor (lt_of_lt_of_le epsilon_pos heps)
    rw [good_iff] at hgd
    exact (top_good ht).mpr ⟨by linarith [hgd.1], hgd.2⟩

theorem single_some (ht : r.top = some d)
    (hg : routerDstIsGood d glbDblEpsilon now (routerRetryInterval cnf) = true) :
    (routerChooseDstSingle (routerPrepare cnf now r)).isSome = true := by
  have hgu : routerTopDstIsGood (routerUpdateCtx cnf now r) = true := by
    have ht' : (routerUpdateCtx cnf now r).top = some d := ht
    rw [good_iff] at hg
    exact (top_good ht').mpr hg
  have hgp : routerTopDstIsGood (routerPrepare cnf now r) = true := by
    rcases prepare_cases cnf now r with ⟨_, _, hp⟩ | ⟨_, hp⟩ <;> rw [hp]
    · exact redo_top_good (update_ctx_min cnf now r) hgu
    · exact hgu
  unfold routerChooseDstSingle
  rw [if_pos hgp]
  cases htop : (routerPrepare cnf now r).topDst with
  | none => simp [routerTopDstIsGood, Router.top, htop] at hgp
  | some i => rfl

theorem undo_cases (cnf : Cnf) (now : Int) (r : Router) (i : Nat) :
    Failure cnf now (r.count i (-1)) i (undo cnf now r i) := failed_cases cnf now (r.count i (-1)) i

/-- The report on a destination that was good already leaves the map to be rebuilt. -/
theorem undo_eq (hd : r.dst[i]? = some d) : undo cnf now r i =
    if routerDstIsGood d r.ctx.minWeight now (routerRetryInterval cnf) then
      if routerUsesMap cnf then
        { routerRedoMap (retopped cnf now (r.count i (-1)) i) with mapFailed := now }
      else retopped cnf now (r.count i (-1)) i
    else stamped cnf now (r.count i (-1)) i := by
  have hslot : ∀ c, (r.count i (-1)).dst[i]? = some c → c.dst = d.dst ∧ c.failed = d.failed := by
    intro c hc
    simp only [Router.count, List.getElem?_modify, hd, Option.map_eq_map, Option.map_some, ↓reduceIte,
      Option.some.injEq] at hc
    exact hc ▸ ⟨rfl, rfl⟩
  have hgood : ∀ c, (r.count i (-1)).dst[i]? = some c →
      routerDstIsGood c (r.count i (-1)).ctx.minWeight now (routerRetryInterval cnf) =
        routerDstIsGood d r.ctx.minWeight now (routerRetryInterval cnf) := by
    intro c hc
    obtain ⟨h1, h2⟩ := hslot c hc
    simp [routerDstIsGood, routerDstIsGoodBase, h1, h2, Router.count]
  have hc := undo_cases cnf now r i
  generalize undo cnf now r i = q at hc ⊢
  cases hc with
  | unlisted h => simp [Router.count, hd] at h
  | wasBad hc hg => simp [← hgood _ hc, hg]
  | retops hc hg hu => simp [← hgood _ hc, hg, hu]
  | remaps hc hg hu => simp [← hgood _ hc, hg, hu]

theorem undo_top_dst (ht : r.topDst ≠ some i) : (undo cnf now r i).topDst = r.topDst := by
  have hr : (retopped cnf now (r.count i (-1)) i).topDst = r.topDst := by
    rw [retopped, if_neg (show (r.count i (-1)).topDst ≠ some i from ht)]
    rfl
  have hc := undo_cases cnf now r i
  generalize undo cnf now r i = q at hc ⊢
  cases hc with
  | unlisted _ => rfl
  | wasBad _ _ => rfl
  | retops _ _ _ => exact hr
  | remaps _ _ _ => exact (redo_map_top _).1.trans hr

/-- A top destination other than the one that failed is still there. -/
theorem undo_top_other (cnf : Cnf) (now : Int) (hd : r.dst[i]? = some d) (ht : r.top = some e)
    (hne : e.dst.addr ≠ d.dst.addr) :
    ∃ t, (undo cnf now r i).top = some t ∧ stem t = stem e := by
  obtain ⟨k, hk, he⟩ := Option.bind_eq_some_iff.mp ht
  have hik : i ≠ k := by
    rintro rfl
    obtain rfl := Option.some.inj (hd.symm.trans he)
    exact hne rfl
  have hm := marked_slot now r i k
  rw [he, Option.map_some, if_neg hik] at hm
  obtain ⟨t, hkt, hst⟩ := (failed_same cnf now (r.count i (-1)) i).symm.get hm
  refine ⟨t, ?_, hst⟩
  rw [Router.top, undo_top_dst (by rw [hk]; exact fun h => hik (Option.some.inj h).symm), hk]
  exact hkt

theorem redo_top_offered (hm : 0 < r.ctx.minWeight) (h : Offered r (r.ctx.minWeight * redoTopFactor)) :
    ∃ t, (routerRedoTop r).top = some t ∧
      routerDstIsGood t (r.ctx.minWeight * redoTopFactor) r.ctx.now r.ctx.retry = true := by
  obtain ⟨_, hall, hres⟩ :=
    redo_top_loop_spec r.ctx.now r.ctx.retry r.dst 0 r.topDst r.ctx.minWeight hm
  rcases hres with hres | ⟨j, t, ht, hb, hw, hres⟩
  · obtain ⟨d, hd, hg⟩ := h
    rw [good_iff] at hg
    have := hall d hd hg.2
    rw [hres] at this
    exact absurd hg.1 (not_le.mpr this)
  · refine ⟨t, ?_, by simp [routerDstIsGood, hb, hw]⟩
    simp [Router.top, routerRedoTop, hres, ht]

/-- What is spare now is on offer when the report looks for a new top destination. -/
theorem spare_stamped (hd : r.dst[i]? = some d) (ha : d.dst.addr = a) (hs : OtherGood cnf r a w now) :
    Offered (stamped cnf now (r.count i (-1)) i) w := by
  obtain ⟨j, c, hij, hj, hg⟩ := spare_slot hd ha hs
  have hm := marked_slot now r i j
  rw [hj, Option.map_some, if_neg hij] at hm
  exact ⟨c, List.mem_of_getElem? hm, hg⟩

theorem undo_top_self (hu : routerUsesMap cnf = false) (hd : r.dst[i]? = some d) (ha : d.dst.addr = a)
    (ht : r.topDst = some i)
    (hg : routerDstIsGood d r.ctx.minWeight now (routerRetryInterval cnf) = true)
    (hs : OtherGood cnf r a (glbDblEpsilon * redoTopFactor) now) :
    ∃ t, (undo cnf now r i).top = some t ∧
      routerDstIsGood t glbDblEpsilon now (routerRetryInterval cnf) = true := by
  rw [undo_eq hd, if_pos hg, hu, retopped, if_pos (show (r.count i (-1)).topDst = some i from ht)]
  have hoff : Offered { stamped cnf now (r.count i (-1)) i with
      ctx := ⟨glbDblEpsilon, routerRetryInterval cnf, now⟩ } (glbDblEpsilon * redoTopFactor) :=
    spare_stamped hd ha hs
  obtain ⟨t, htop, hgt⟩ := redo_top_offered epsilon_pos hoff
  exact ⟨t, htop, good_mono hgt (le_of_lt (lt_mul_factor epsilon_pos)) (le_refl now)⟩

end top

section map

/-- No weight in the table is negative. -/
def Weighed (r : Router) : Prop := ∀ d ∈ r.dst, 0 ≤ d.dst.weight

theorem weighed_of_dsts (hw : Weighed r) (h : q.dst.map RouterDst.dst = r.dst.map RouterDst.dst) :
    Weighed q := by
  intro d hd
  obtain ⟨c, hc, he⟩ := mem_of_map_eq h hd
  exact he ▸ hw c hc

theorem Weighed.same (hw : Weighed r) (h : SameUpTo core r q) : Weighed q :=
  weighed_of_dsts hw (h.map RouterDst.dst (fun _ => rfl))

theorem Weighed.count (hw : Weighed r) (i : Nat) (n : Int) : Weighed (r.count i n) :=
  weighed_of_dsts hw (map_modify _ _ _ _ (fun _ => rfl))

/-- A map that is rebuilt with somebody in it reaches to the end of the interval. -/
theorem rebuilt_reaches (hw : Weighed r) (hd : d ∈ r.dst) (hpos : 0 < d.dst.weight)
    (hg : routerDstIsGood d r.ctx.minWeight r.ctx.now r.ctx.retry = true) (hint : UInt32) :
    ∃ d ∈ (routerRedoMap r).dst, hintPoint hint < d.map := by
  have hnonneg : ∀ w ∈ r.dst.map (goodWeight r.ctx), 0 ≤ w := good_weight_listed (fun d hd _ => hw d hd)
  have htotal : 0 < goodTotal r := by
    have hle := List.single_le_sum hnonneg _ (List.mem_map_of_mem hd)
    rw [goodWeight, if_pos hg] at hle
    exact lt_of_lt_of_le hpos hle
  obtain ⟨k, hk⟩ := (rebuilt_borders (fun d hd _ => hw d hd) htotal).last
  rw [List.getElem?_map, Option.map_eq_some_iff] at hk
  obtain ⟨c, hc, hone⟩ := hk
  exact ⟨c, List.mem_of_getElem? hc, by rw [hone]; exact hint_point_lt_one hint⟩

/-- What was on offer for a new top destination is on offer beside the one found. -/
theorem redo_top_spares (hm : 0 < r.ctx.minWeight) (h : Offered r r.ctx.minWeight) :
    Offered (routerRedoTop r) (routerRedoTop r).ctx.minWeight ∧
      0 < (routerRedoTop r).ctx.minWeight := by
  obtain ⟨hle, _, hres⟩ :=
    redo_top_loop_spec r.ctx.now r.ctx.retry r.dst 0 r.topDst r.ctx.minWeight hm
  refine ⟨?_, lt_of_lt_of_le hm hle⟩
  rcases hres with hres | ⟨j, t, ht, hb, hw, hres⟩
  · simp only [routerRedoTop, hres]
    exact h
  · refine ⟨t, List.mem_of_getElem? ht, ?_⟩
    simp only [routerRedoTop, hres]
    simpa [routerDstIsGood] using hb

theorem remapped_reaches (hw : Weighed r) (hd : r.dst[i]? = some d) (ha : d.dst.addr = a)
    (hs : OtherGood cnf r a (if r.topDst = some i then glbDblEpsilon else max glbDblEpsilon r.ctx.minWeight) now)
    (hint : UInt32) :
    ∃ d ∈ (routerRedoMap (retopped cnf now (r.count i (-1)) i)).dst, hintPoint hint < d.map := by
  have hwx : Weighed (retopped cnf now (r.count i (-1)) i) :=
    (hw.count i (-1)).same ((marked_core now _ i).trans (retopped_same cnf now _ i).core)
  have hoff := spare_stamped hd ha hs
  unfold retopped at hwx ⊢
  by_cases ht : r.topDst = some i
  · rw [if_pos ht] at hoff
    rw [if_pos (show (r.count i (-1)).topDst = some i from ht)] at hwx ⊢
    obtain ⟨⟨c, hc, hg⟩, hpos⟩ := redo_top_spares (r := { stamped cnf now (r.count i (-1)) i with
      ctx := ⟨glbDblEpsilon, routerRetryInterval cnf, now⟩ }) epsilon_pos hoff
    refine rebuilt_reaches hwx hc ?_ hg hint
    rw [good_iff] at hg
    exact lt_of_lt_of_le hpos hg.1
  · rw [if_neg ht] at hoff
    rw [if_neg (show (r.count i (-1)).topDst ≠ some i from ht)] at hwx ⊢
    obtain ⟨c, hc, hg⟩ := hoff
    refine rebuilt_reaches hwx hc ?_ (good_mono hg (le_max_right _ _) (le_refl _)) hint
    rw [good_iff] at hg
    exact lt_of_lt_of_le epsilon_pos (le_trans (le_max_left _ _) hg.1)

/-- The map of a choice: rebuilt if it has expired, else as it is. -/
theorem expired_reaches (hu : routerUsesMap cnf = true) (hw : Weighed r)
    (hm : r.ctx.minWeight = routerMinWeight r) (hint : UInt32)
    (hexp : r.mapFailed ≠ 0 ∧ r.ctx.now - r.mapFailed > r.ctx.retry → Offered r glbDblEpsilon)
    (hkept : ¬ (r.mapFailed ≠ 0 ∧ r.ctx.now - r.mapFailed > r.ctx.retry) →
      ∃ d ∈ r.dst, hintPoint hint < d.map) :
    ∃ d ∈ (routerExpireMap cnf r).dst, hintPoint hint < d.map := by
  unfold routerExpireMap
  simp only [hu, Bool.true_and, Bool.and_eq_true, decide_eq_true_eq]
  split
  · rename_i hx
    obtain ⟨d, hd, hg⟩ := offered_min hm (hexp hx)
    refine rebuilt_reaches hw hd ?_ hg hint
    rw [good_iff] at hg
    rw [hm] at hg
    exact lt_of_lt_of_le epsilon_pos (le_trans (epsilon_le_min r) hg.1)
  · rename_i hx
    exact hkept hx

end map

theorem is_top_iff (hu : Unique r) (hd : r.dst[i]? = some d) (ha : d.dst.addr = a) :
    IsTop r a ↔ r.topDst = some i := by
  constructor
  · rintro ⟨t, ht, hta⟩
    obtain ⟨k, hk, he⟩ := Option.bind_eq_some_iff.mp ht
    rw [key_inj hu hd he (hta.trans ha.symm)]
    exact hk
  · intro ht
    refine ⟨d, ?_, ha⟩
    simp [Router.top, ht, hd]

theorem was_good_iff (hu : Unique r) (hd : r.dst[i]? = some d) (ha : d.dst.addr = a) :
    WasGood cnf now r a ↔
      routerDstIsGood d r.ctx.minWeight now (routerRetryInterval cnf) = true := by
  constructor
  · rintro ⟨e, he, hea, hg⟩
    obtain ⟨j, hj⟩ := List.mem_iff_getElem?.mp he
    obtain rfl := key_inj hu hd hj (hea.trans ha.symm)
    obtain rfl := Option.some.inj (hd.symm.trans hj)
    exact hg
  · exact fun hg => ⟨d, List.mem_of_getElem? hd, ha, hg⟩

theorem OtherGood.later (h : OtherGood cnf r a w now) (hw : w' ≤ w) (hn : now ≤ now') :
    OtherGood cnf r a w' now' := by
  obtain ⟨d, hd, hne, hg⟩ := h
  exact ⟨d, hd, hne, good_mono hg hw hn⟩

theorem prepare_map_failed (cnf : Cnf) (now : Int) (r : Router) :
    (routerPrepare cnf now r).mapFailed = r.mapFailed := by
  unfold routerPrepare routerExpireTop
  split <;> rfl

/-- What a router needs for the condition to be enough. -/
structure InOrder (r : Router) : Prop where
  sound : RouterTable.TableSound r
  accounted : Accounted r
  weighed : Weighed r

section moves
variable (ho : InOrder r) (hd : r.dst[i]? = some d) (ha : d.dst.addr = a)
include ho hd ha

theorem least_moves (hp : AllPass cnf env r) (hc : Counts r a)
    (hs : OtherGood cnf r a glbDblEpsilon env.now) :
    (routerChooseDstLeast cnf env (routerPrepare cnf env.now (undo cnf now r i))).2.isSome = true := by
  have hmin := prepare_min cnf env.now (undo cnf now r i)
  obtain ⟨e, he, hg⟩ := offered_min hmin (spare_offered now hd ha hs)
  have hacc : Accounted (routerPrepare cnf env.now (undo cnf now r i)) :=
    (ho.accounted.undo hd cnf now).same (prepare_same cnf env.now _).core
  refine least_some (next_passes hp i) he hg ?_
  have hconns : 0 ≤ e.conns := by
    obtain ⟨j, hj⟩ := List.mem_iff_getElem?.mp he
    obtain ⟨c, hc', hst⟩ := slot_before hj
    have hec : e.conns = (if i = j then undone now c else c).conns := (congrArg RouterDst.conns hst :)
    have hle := hc c (List.mem_of_getElem? hc')
    rw [hec]
    split
    · rename_i hij
      subst hij
      obtain rfl := Option.some.inj (hd.symm.trans hc')
      rw [if_pos ha] at hle
      simp only [undone]
      omega
    · split at hle <;> omega
  have hweight : 0 < e.dst.weight := by
    rw [good_iff] at hg
    rw [hmin] at hg
    exact lt_of_lt_of_le epsilon_pos (le_trans (epsilon_le_min _) hg.1)
  rw [hacc.usage e he, routerDstUsage]
  have hq : (0 : ℚ) < ((e.conns + 1 : Int) : ℚ) := by exact_mod_cast (by omega : 0 < e.conns + 1)
  exact div_pos hweight hq

theorem round_moves (hp : AllPass cnf env r) (hs : OtherGood cnf r a glbDblEpsilon env.now) :
    (routerChooseDstRound cnf env (routerPrepare cnf env.now (undo cnf now r i))).2.isSome = true := by
  have hdst := (prepare_dst cnf env.now (undo cnf now r i)).1
  obtain ⟨e, he, hg⟩ := offered_min (prepare_min cnf env.now _) (spare_offered now hd ha hs)
  rw [good_prepared] at hg
  rw [hdst] at he
  have hcur : (undo cnf now r i).rrbNext < (undo cnf now r i).dst.length := by
    have hplaced := failed_placed cnf now i (count_placed i (-1) ho.sound.toPlaced)
    have hpos := List.length_pos_of_mem he
    rcases hplaced.cursor with h0 | hlt
    · exact h0 ▸ hpos
    · exact hlt
  exact round_some (fun j e hj => next_passes hp i j e (hdst ▸ hj)) hcur he hg

theorem single_moves (hu : routerUsesMap cnf = false) (hn : now ≤ env.now)
    (hc : if IsTop r a then WasGood cnf now r a ∧ OtherGood cnf r a (glbDblEpsilon * redoTopFactor) now
      else ∃ d ∈ r.top, routerDstIsGood d glbDblEpsilon env.now (routerRetryInterval cnf) = true) :
    (routerChooseDstSingle (routerPrepare cnf env.now (undo cnf now r i))).isSome = true := by
  by_cases ht : IsTop r a
  · rw [if_pos ht] at hc
    obtain ⟨t, htop, hg⟩ := undo_top_self hu hd ha ((is_top_iff ho.sound.unique hd ha).mp ht)
      ((was_good_iff ho.sound.unique hd ha).mp hc.1) hc.2
    exact single_some htop (good_mono hg (le_refl _) hn)
  · rw [if_neg ht] at hc
    obtain ⟨e, he, hg⟩ := hc
    have hne : e.dst.addr ≠ d.dst.addr := fun hea => ht ⟨e, he, hea.trans ha⟩
    obtain ⟨t, htop, hst⟩ := undo_top_other cnf now hd he hne
    refine single_some htop ?_
    rw [good_stem hst]
    exact hg

theorem map_moves (hu : routerUsesMap cnf = true) (hn : now ≤ env.now) (hp : AllPass cnf env r)
    (hc : MapReaches cnf now env r hint a) :
    (routerChooseDstHint cnf env (routerPrepare cnf env.now (undo cnf now r i))
      (policyHint cnf env hint)).2.isSome = true := by
  obtain ⟨hdst, hnow, hretry⟩ := prepare_dst cnf env.now (undo cnf now r i)
  have hfailed := prepare_map_failed cnf env.now (undo cnf now r i)
  have hsame : (stamped cnf now (r.count i (-1)) i).mapFailed = r.mapFailed := rfl
  have hw : Weighed (routerPrepare cnf env.now (undo cnf now r i)) :=
    (ho.weighed.count i (-1)).same ((failed_core cnf now _ i).trans (prepare_same cnf env.now _).core)
  refine hint_some (next_passes hp i) (expired_reaches hu hw (prepare_min cnf env.now _) _ ?_ ?_)
  all_goals rw [hfailed, hnow, hretry]
  all_goals
    unfold MapReaches at hc
    simp only [is_top_iff ho.sound.unique hd ha, was_good_iff ho.sound.unique hd ha] at hc
  · intro hx
    apply spare_offered now hd ha
    by_cases hg : routerDstIsGood d r.ctx.minWeight now (routerRetryInterval cnf) = true
    · rw [if_pos hg] at hc
      refine hc.later ?_ hn
      split
      · exact le_refl _
      · exact le_max_left _ _
    · rw [undo_eq hd, if_neg hg, hsame] at hx
      rw [if_neg hg, if_pos hx] at hc
      exact hc
  · intro hx
    rw [hdst]
    by_cases hg : routerDstIsGood d r.ctx.minWeight now (routerRetryInterval cnf) = true
    · rw [if_pos hg] at hc
      rw [undo_eq hd, if_pos hg, hu]
      exact remapped_reaches ho.weighed hd ha hc _
    · rw [undo_eq hd, if_neg hg] at hx ⊢
      rw [hsame] at hx
      rw [if_neg hg, if_neg hx] at hc
      obtain ⟨c, hcm, hlt⟩ := hc
      have hmaps : (stamped cnf now (r.count i (-1)) i).dst.map RouterDst.map = r.dst.map RouterDst.map :=
        (mark_maps (r.count i (-1)).dst i now).trans (map_modify _ _ _ _ (fun _ => rfl))
      have hmem : c.map ∈ r.dst.map RouterDst.map := List.mem_map_of_mem hcm
      rw [← hmaps] at hmem
      obtain ⟨e, he, hem⟩ := List.mem_map.mp hmem
      exact ⟨e, he, hem ▸ hlt⟩

/-- Where there is another destination to go on with, a choice finds one. -/
theorem choice_moves (hn : now ≤ env.now) (hp : AllPass cnf env r) (hc : CanMove cnf now env r hint a) :
    (routerChooseDst cnf env (undo cnf now r i) hint).2.isSome = true := by
  rw [choose_returns]
  unfold routerPolicy
  unfold CanMove at hc
  cases hpol : cnf.policy with
  | least =>
    rw [hpol] at hc
    exact least_moves ho hd ha hp hc.1 hc.2
  | round =>
    rw [hpol] at hc
    exact round_moves ho hd ha hp hc
  | single =>
    rw [hpol] at hc
    exact single_moves ho hd ha (by simp [routerUsesMap, hpol, Policy.toNat]) hn hc
  | random =>
    rw [hpol] at hc
    have hm := map_moves ho hd ha (by simp [routerUsesMap, hpol, Policy.toNat]) hn hp hc
    simpa [policyHint, hpol] using hm
  | source =>
    rw [hpol] at hc
    have hm := map_moves ho hd ha (by simp [routerUsesMap, hpol, Policy.toNat]) hn hp hc
    simpa [policyHint, hpol] using hm

end moves

section run
variable {s s' : RouterSys} {op : SysOp}

theorem Weighed.change (hw : Weighed r) (cnf : Cnf) (env : ChangeEnv) (dst : Dst) (ctx : Option CtxId) :
    Weighed (glbRouterChangeDst cnf env r dst ctx).1 := by
  rw [change_dst_eq]
  cases he : routerEdit env r dst ctx with
  | none => exact hw
  | some q =>
    refine Weighed.same ?_ (redo_same cnf env.now q).core
    cases edit_cases he with
    | added _ hpos _ =>
      intro d hd
      rcases List.mem_append.mp hd with hd | hd
      · exact hw d hd
      · obtain rfl := List.mem_singleton.mp hd
        exact not_lt.mp hpos
    | noMemory _ _ _ => exact hw
    | removed _ hd _ _ =>
      intro e he
      exact hw e ((Lib.SwapRemove.swapRemove_perm r.dst _ _ hd).mem_iff.mpr (List.mem_cons_of_mem _ he))
    | weighed _ hd _ hpos _ => exact forall_modify hw (fun _ _ => not_lt.mp hpos)

theorem Weighed.choose (hw : Weighed r) (h : routerChooseDst cnf env r hint = (q, ret)) : Weighed q := by
  rcases choose_picked h with ⟨_, hp⟩ | ⟨p, i, _, hp, rfl⟩
  · exact hw.same hp.same
  · exact (hw.same hp.same).count i 1

theorem in_order_init : InOrder Router.init :=
  ⟨sound_init, ⟨rfl, nofun⟩, nofun⟩

/-- Every step of every thread keeps the router in order. -/
theorem step_in_order (hh : SlotsHeld s) (h : InOrder s.router) (hstep : sysStep cnf s op = some s') :
    InOrder s'.router := by
  refine step_router InOrder ?_ ?_ ?_ ?_ ?_ hh h hstep
  · intro r b w ho
    exact ⟨⟨⟨ho.sound.cursor, ho.sound.top⟩, ho.sound.unique⟩, ho.accounted.counters b w, ho.weighed⟩
  · intro r env dst ctx ho
    exact ⟨change_sound cnf env dst ctx ho.sound, ho.accounted.change cnf env dst ctx,
      ho.weighed.change cnf env dst ctx⟩
  · intro r env hint ho
    exact ⟨(choose_routes ho.sound rfl).sound ho.sound, ho.accounted.choose rfl, ho.weighed.choose rfl⟩
  · intro r i d hd ho
    exact ⟨(count_routes r i (-1)).sound ho.sound, ho.accounted.count hd (-1), ho.weighed.count i (-1)⟩
  · intro r now i ho
    exact ⟨(failed_routes cnf now r i).sound ho.sound, ho.accounted.same (failed_core cnf now r i),
      ho.weighed.same (failed_core cnf now r i)⟩

/-- A failed destination that is still listed, checks that pass, a clock that does not
go back, and another destination to go on with. -/
def AgainOk (cnf : Cnf) (s : RouterSys) : SysOp → Prop
  | .chooseAgain now env hint a =>
    (∃ d ∈ s.router.dst, d.dst.addr = a) ∧ now ≤ env.now ∧ AllPass cnf env s.router ∧
      CanMove cnf now env s.router hint a
  | _ => True

instance : (op : SysOp) → Decidable (AgainOk cnf s op)
  | .chooseAgain _ _ _ _ => inferInstanceAs (Decidable (_ ∧ _ ∧ _ ∧ _))
  | .change _ _ _ | .wake _ | .choose _ _ | .disconnect _ _ _ | .connect _ _ _ | .dial _
  | .connected _ _ _ _ => .isTrue trivial

/-- The asserts of the call that a step makes. -/
def Asserted (cnf : Cnf) (s : RouterSys) : SysOp → Prop
  | .chooseAgain now env hint a => AssertsHold cnf now env s.router hint a
  | _ => True

theorem again_asserted (h : InOrder s.router) (hok : AgainOk cnf s op) : Asserted cnf s op := by
  cases op with
  | chooseAgain now env hint a =>
    obtain ⟨⟨d, hd, ha⟩, hn, hp, hc⟩ := hok
    obtain ⟨i, hi⟩ := List.mem_iff_getElem?.mp hd
    exact (asserts_iff h.sound.unique hi ha).mpr (choice_moves h hi ha hn hp hc)
  | _ => trivial

/-- In every run of any number of threads whose repeated choices meet the condition,
both asserts hold at each of them. -/
theorem again_asserts_hold (n : Nat) (ops : List SysOp)
    (ha : Along (sysStep cnf) (AgainOk cnf) (RouterSys.init n) ops) :
    Along (sysStep cnf) (Asserted cnf) (RouterSys.init n) ops := by
  have keep : ∀ s op s', (SlotsHeld s ∧ InOrder s.router) → AgainOk cnf s op → sysStep cnf s op = some s' →
      SlotsHeld s' ∧ InOrder s'.router := by
    intro s op s' hi _ hstep
    exact ⟨step_held hi.1 hstep, step_in_order hi.1 hi.2 hstep⟩
  exact along_keeps keep (fun s op hi hok => again_asserted hi.2 hok) ⟨held_init n, in_order_init⟩ ha

/-- A is the heavier one. Two clients are sent to it, the connect of one fails and then
that of the other. -/
def bothMove : List SysOp :=
  [listAt 100 serverA 2, listAt 100 serverB 1, .choose (chooseAt 100) 0, .choose (chooseAt 100) 0,
    .chooseAgain 101 (chooseAt 101) 0 serverA, .chooseAgain 102 (chooseAt 102) 0 serverA]

theorem again_asserts_hold_both_move :
    Along (sysStep singleTop) (Asserted singleTop) (RouterSys.init 0) bothMove ∧
      (sysReached singleTop 0 bothMove).router.dst.map (fun d => (d.dst.addr, d.conns)) =
        [(serverA, 0), (serverB, 2)] := by
  refine ⟨again_asserts_hold 0 bothMove ?_, ?_⟩
  all_goals decide +kernel

end run

/-- A client's connect to A is pending. In the first run A is all there is, in the second
the operator has removed it. The call that the pool makes when the connect fails meets
an assert that does not hold: the number of connections goes down by one, and A is not
found. -/
theorem again_asserts_fail :
    (ownEnd (reachedBy leastConns connectA) 0 7).map (fun e => (e.kind, e.addr)) =
        some (.incomplete, serverA) ∧
      ¬ AssertsHold leastConns 101 (chooseAt 101) (reachedBy leastConns connectA).router 0 serverA ∧
      (routerDisconnect leastConns 101 (reachedBy leastConns connectA).router serverA true).2 = 0 ∧
    (ownEnd (reachedBy leastConns Removal.removeA) 0 7).map (fun e => (e.kind, e.addr)) =
        some (.incomplete, serverA) ∧
      ¬ AssertsHold leastConns 101 (chooseAt 101) (reachedBy leastConns Removal.removeA).router 0 serverA ∧
      (reachedBy leastConns Removal.removeA).router.dst = [] := by
  decide +kernel

end Glb.Proofs.SecondChoice
