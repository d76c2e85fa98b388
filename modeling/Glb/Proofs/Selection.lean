import Glb.Proofs.MapShare

namespace Glb.Proofs.Selection
open RouterFrame RouterRun TopDst MapShare Lib.Run Lib.Share

variable {cnf : Cnf} {env : ChooseEnv} {r r' : Router} {d : RouterDst} {i : Nat} {now : Int}

/-- Neither drained nor inside its retry window, by the router's own clock. -/
def Eligible (r : Router) (d : RouterDst) : Prop :=
  glbDblEpsilon ≤ d.dst.weight ∧ r.ctx.now - d.failed > r.ctx.retry

instance (r : Router) (d : RouterDst) : Decidable (Eligible r d) :=
  inferInstanceAs (Decidable (_ ∧ _))

/-- A choice returns an eligible destination, and none when there is none. -/
def ChoiceSound (cnf : Cnf) (env : ChooseEnv) (r : Router) (hint : UInt32) : Prop :=
  let r' := (routerChooseDst cnf env r hint).1
  let ret := (routerChooseDst cnf env r hint).2
  (∀ i, ret = some i → ∃ d, r'.dst[i]? = some d ∧ Eligible r' d) ∧
  ((∀ d ∈ r'.dst, ¬ Eligible r' d) → ret = none)

/-- The second half of soundness is the first one read backwards. -/
theorem sound_iff (cnf : Cnf) (env : ChooseEnv) (r : Router) (hint : UInt32) :
    ChoiceSound cnf env r hint ↔ ∀ i, (routerChooseDst cnf env r hint).2 = some i →
      ∃ d, (routerChooseDst cnf env r hint).1.dst[i]? = some d ∧
        Eligible (routerChooseDst cnf env r hint).1 d := by
  refine ⟨fun h => h.1, fun h => ⟨h, ?_⟩⟩
  intro hnone
  by_contra hret
  obtain ⟨i, hi⟩ := Option.ne_none_iff_exists'.mp hret
  obtain ⟨d, hd, he⟩ := h i hi
  exact hnone d (List.mem_of_getElem? hd) he

/-- Soundness can be judged on the router that the policy decides on. -/
theorem sound_ready (he : cnf.extra = 0) (hint : UInt32) :
    ChoiceSound cnf env r hint ↔
      ∀ i, (routerPolicy cnf env (routerPrepare cnf env.now r) hint).2 = some i →
        ∃ d, (routerReady cnf (routerPrepare cnf env.now r)).dst[i]? = some d ∧
          Eligible (routerReady cnf (routerPrepare cnf env.now r)) d := by
  have move : ∀ {a b : Router} {i : Nat}, Alike a b → (∃ d, a.dst[i]? = some d ∧ Eligible a d) →
      ∃ d, b.dst[i]? = some d ∧ Eligible b d := by
    rintro a b i h ⟨d, hd, hw, hf⟩
    obtain ⟨d', hd', hrow⟩ := h.symm.get hd
    obtain ⟨h1, _, h3⟩ := row_eq_iff.mp hrow
    refine ⟨d', hd', ?_⟩
    rw [Eligible, h.ctx, h1, h3]
    exact ⟨hw, hf⟩
  have halike := choose_alike he env r hint
  rw [sound_iff, choose_returns]
  constructor
  · intro h i hi
    exact move halike.symm (h i hi)
  · intro h i hi
    exact move halike (h i hi)

theorem plain_sound (he : cnf.extra = 0) (hp : routerUsesMap cnf = false) (hint : UInt32) :
    ChoiceSound cnf env r hint := by
  rw [sound_ready he, ready_plain hp]
  intro i hi
  have hmin := prepare_min cnf env.now r
  obtain ⟨d, hd, hg⟩ := policy_good he hp hmin hi
  rw [good_iff, good_base_iff] at hg
  exact ⟨d, hd, le_trans (hmin ▸ epsilon_le_min _) hg.1, hg.2⟩

/-- Only eligible destinations own a piece of the map. -/
structure MapSound (cnf : Cnf) (r : Router) : Prop where
  owned : ∀ i d, r.dst[i]? = some d → 0 < share 0 (r.dst.map RouterDst.map) i →
    glbDblEpsilon ≤ d.dst.weight ∧ r.ctx.now - d.failed > routerRetryInterval cnf
  nonneg : ∀ d ∈ r.dst, 0 ≤ d.map
  minWeight : r.dst ≠ [] → glbDblEpsilon ≤ r.ctx.minWeight

theorem redo_map_sound (cnf : Cnf) (hm : glbDblEpsilon ≤ r.ctx.minWeight)
    (hr : r.ctx.retry = routerRetryInterval cnf) : MapSound cnf (routerRedoMap r) := by
  have hpos : 0 < r.ctx.minWeight := lt_of_lt_of_le epsilon_pos hm
  have hcuts := redo_map_cuts r hpos
  have hnonneg : ∀ w ∈ r.dst.map (goodWeight r.ctx), 0 ≤ w := by
    intro w hw
    obtain ⟨d, _, rfl⟩ := List.mem_map.mp hw
    exact good_weight_nonneg r.ctx hpos d
  refine ⟨?_, ?_, fun _ => by rw [redo_map_ctx]; exact hm⟩
  · intro i d' hd' hs
    have hcore : (r.dst.map mapInput)[i]? = some (mapInput d') := by
      rw [← redo_map_core, List.getElem?_map, hd']
      rfl
    rw [List.getElem?_map, Option.map_eq_some_iff] at hcore
    obtain ⟨d, hd, he⟩ := hcore
    simp only [mapInput, Prod.mk.injEq] at he
    rw [hcuts, share_cuts _ _ _ i (goodWeight r.ctx d) (by simp [hd])] at hs
    have hgood : routerDstIsGood d r.ctx.minWeight r.ctx.now r.ctx.retry = true := by
      by_contra hb
      simp [goodWeight, hb] at hs
    rw [good_iff, good_base_iff] at hgood
    rw [redo_map_ctx, ← he.1, ← he.2, ← hr]
    exact ⟨le_trans hm hgood.1, hgood.2⟩
  · intro d hd
    have hmem : d.map ∈ (routerRedoMap r).dst.map RouterDst.map := List.mem_map_of_mem hd
    rw [hcuts] at hmem
    exact cuts_nonneg _ 0 _ (List.sum_nonneg hnonneg) (le_refl 0) hnonneg _ hmem

theorem sound_schedule (hs : MapSound cnf r) (m : Int) : MapSound cnf { r with mapFailed := m } :=
  ⟨hs.owned, hs.nonneg, hs.minWeight⟩

/-- A sound map stays sound while the clock moves on and nothing else does. -/
theorem later_sound (hs : MapSound cnf r) (hd : r'.dst.map row = r.dst.map row)
    (hm : r'.dst ≠ [] → glbDblEpsilon ≤ r'.ctx.minWeight) (hn : r.ctx.now ≤ r'.ctx.now) :
    MapSound cnf r' := by
  have halike : Alike r { r with dst := r'.dst } := ⟨rfl, rfl, rfl, rfl, hd⟩
  refine ⟨?_, ?_, hm⟩
  · intro i d' hd' hp
    obtain ⟨d, hd, hrow⟩ := halike.get hd'
    obtain ⟨h1, _, h3⟩ := row_eq_iff.mp hrow
    have hmaps := alike_maps halike
    simp only at hmaps
    rw [hmaps] at hp
    obtain ⟨hw, hf⟩ := hs.owned i d hd hp
    rw [← h1, ← h3]
    exact ⟨hw, by omega⟩
  · intro d' hd'
    obtain ⟨d, hd, hrow⟩ := halike.mem hd'
    rw [← (row_eq_iff.mp hrow).2.1]
    exact hs.nonneg d hd

theorem alike_sound (h : Alike r r') (hs : MapSound cnf r) : MapSound cnf r' := by
  apply later_sound hs h.rows
  · intro hne
    rw [h.ctx]
    apply hs.minWeight
    intro hnil
    have hrows := h.rows
    rw [hnil] at hrows
    exact hne (by simpa using hrows)
  · rw [h.ctx]

theorem prepare_epsilon (cnf : Cnf) (now : Int) (r : Router) :
    glbDblEpsilon ≤ (routerPrepare cnf now r).ctx.minWeight := by
  rw [prepare_min]
  exact epsilon_le_min _

theorem choose_sound (hu : routerUsesMap cnf = true) (hs : MapSound cnf r) (hc : r.ctx.now ≤ now) :
    MapSound cnf (routerReady cnf (routerPrepare cnf now r)) := by
  obtain ⟨hdst, hnow, hretry⟩ := prepare_dst cnf now r
  have heps := prepare_epsilon cnf now r
  rcases ready_cases hu hretry with ⟨_, hq⟩ | ⟨_, hq⟩ <;> rw [hq]
  · exact sound_schedule (redo_map_sound cnf heps hretry) 0
  · exact later_sound hs (by rw [hdst]) (fun _ => heps) (by rw [hnow]; exact hc)

theorem redo_sound (hu : routerUsesMap cnf = true) : MapSound cnf (routerRedo cnf now r) := by
  have he : routerRedo cnf now r = routerRedoMap (routerRetop cnf now r) := by
    simp [routerRedo, routerRetop, hu]
  rw [he]
  unfold routerRetop
  cases cnf.top with
  | true =>
    have hred := redo_top_spec _ (update_ctx_min cnf now r)
    refine redo_map_sound cnf ?_ rfl
    simp only [↓reduceIte, hred.minWeight]
    exact epsilon_le_min _
  | false => exact redo_map_sound cnf (epsilon_le_min _) rfl

/-- A reported destination is heavy enough to make the router rebuild its map,
or owns no piece of it. -/
def ReportOk (r : Router) (addr : SockAddr) : Prop :=
  ∀ i ∈ r.dst.findIdx? (fun d => glbSockaddrIsEqual d.dst.addr addr), ∀ d ∈ r.dst[i]?,
    r.ctx.minWeight ≤ d.dst.weight ∨ share 0 (r.dst.map RouterDst.map) i ≤ 0

instance (r : Router) (addr : SockAddr) : Decidable (ReportOk r addr) :=
  inferInstanceAs (Decidable (∀ i ∈ r.dst.findIdx? _, ∀ d ∈ r.dst[i]?, _ ∨ _))

/-- A report that does not make the router rebuild its map hits a destination
that owns no piece of it. -/
theorem mark_sound (hs : MapSound cnf r) (hd : r.dst[i]? = some d) (hc : r.ctx.now ≤ now)
    (hbad : routerDstIsGood d r.ctx.minWeight now (routerRetryInterval cnf) = false)
    (hrep : r.ctx.minWeight ≤ d.dst.weight ∨ share 0 (r.dst.map RouterDst.map) i ≤ 0) :
    MapSound cnf { r with
      ctx := { r.ctx with now := now, retry := routerRetryInterval cnf }
      dst := r.dst.modify i (fun d => { d with failed := now }) } := by
  have hnone : ¬ 0 < share 0 (r.dst.map RouterDst.map) i := by
    intro hp
    obtain ⟨_, hf⟩ := hs.owned i d hd hp
    rcases hrep with hw | hle
    · have hbase : routerDstIsGoodBase d now (routerRetryInterval cnf) = true := by
        rw [good_base_iff]
        omega
      simp [routerDstIsGood, hw, hbase] at hbad
    · exact absurd hp (not_lt.mpr hle)
  refine ⟨?_, ?_, ?_⟩
  · intro j e he hp
    simp only [mark_maps] at hp
    have hij : i ≠ j := by
      rintro rfl
      exact hnone hp
    rw [List.getElem?_modify_ne _ _ hij] at he
    obtain ⟨hw, hf⟩ := hs.owned j e he hp
    exact ⟨hw, by simp only; omega⟩
  · intro e he
    have hmem : e.map ∈ r.dst.map RouterDst.map := by
      rw [← mark_maps r.dst i now]
      exact List.mem_map_of_mem he
    obtain ⟨e₀, he₀, heq⟩ := List.mem_map.mp hmem
    exact heq ▸ hs.nonneg e₀ he₀
  · intro hne
    apply hs.minWeight
    rintro hnil
    simp [hnil] at hd

theorem redo_top_epsilon (h : r.ctx.minWeight = glbDblEpsilon) :
    glbDblEpsilon ≤ (routerRedoTop r).ctx.minWeight := by
  have hspec := redo_top_loop_spec r.ctx.now r.ctx.retry r.dst 0 r.topDst r.ctx.minWeight
    (h ▸ epsilon_pos)
  exact h ▸ hspec.1

theorem failed_sound (hu : routerUsesMap cnf = true) (hs : MapSound cnf r) (hc : r.ctx.now ≤ now)
    (hrep : ∀ d ∈ r.dst[i]?, r.ctx.minWeight ≤ d.dst.weight ∨
      share 0 (r.dst.map RouterDst.map) i ≤ 0) :
    MapSound cnf (routerDstFailed cnf now r i) := by
  have hc' := failed_cases cnf now r i
  generalize routerDstFailed cnf now r i = q at hc' ⊢
  cases hc' with
  | unlisted _ => exact hs
  | wasBad hd hbad => exact mark_sound hs hd hc hbad (hrep _ hd)
  | retops _ _ hn => simp [hu] at hn
  | remaps hd _ _ =>
    have hne : r.dst ≠ [] := by
      rintro hnil
      simp [hnil] at hd
    refine sound_schedule (redo_map_sound cnf ?_ ?_) now <;> unfold retopped <;> split
    · exact redo_top_epsilon rfl
    · exact hs.minWeight hne
    · rfl
    · rfl

/-- A clock that does not go back, and reports that the router acts on. The
policies that test destinations one by one need neither. -/
def SelectOk (cnf : Cnf) (r : Router) (op : RouterOp) : Prop :=
  routerUsesMap cnf = true → ClockOk r op ∧
    match op with
    | .disconnect _ addr failed => failed = true → ReportOk r addr
    | .chooseAgain _ _ _ addr => ReportOk r addr
    | _ => True

instance (cnf : Cnf) (r : Router) : (op : RouterOp) → Decidable (SelectOk cnf r op)
  | .change _ _ _ => inferInstanceAs (Decidable (_ → _ ∧ True))
  | .choose _ _ => inferInstanceAs (Decidable (_ → _ ∧ True))
  | .disconnect _ _ _ => inferInstanceAs (Decidable (_ → _ ∧ (_ → _)))
  | .chooseAgain _ _ _ _ => inferInstanceAs (Decidable (_ → _ ∧ _))

theorem step_choice_sound (he : cnf.extra = 0) (hu : routerUsesMap cnf = true) :
    ∀ r op r', MapSound cnf r → SelectOk cnf r op → routerStep cnf r op = some r' →
      MapSound cnf r' := by
  apply step_keeps (MapSound cnf) (SelectOk cnf) he
  · intro r r' h hs
    exact alike_sound h hs
  · intro r env dst ctx r' _ _ _
    exact redo_sound hu
  · intro r env hint hs hok
    exact choose_sound hu hs (hok hu).1
  · intro r now addr i hs hok hi
    have halike := count_alike r i (-1)
    apply failed_sound hu (alike_sound halike hs) (hok hu).1
    intro d' hd'
    obtain ⟨d, hd, hrow⟩ := halike.get hd'
    rw [alike_maps halike, halike.ctx, ← (row_eq_iff.mp hrow).1]
    exact (hok hu).2 rfl i hi d hd
  · intro r now env hint addr hok
    obtain ⟨hd, hc⟩ := clock_again cnf (hok hu).1
    exact ⟨fun _ => ⟨hd, fun _ => (hok hu).2⟩, fun _ => ⟨hc, trivial⟩⟩

theorem init_sound (cnf : Cnf) : MapSound cnf Router.init :=
  ⟨by simp [Router.init], by simp [Router.init], fun h => absurd rfl h⟩

/-- The hint that reaches the map: `RANDOM` draws its own. -/
def policyHint (cnf : Cnf) (env : ChooseEnv) (hint : UInt32) : UInt32 :=
  if cnf.policy = .random then routerRandomHint env.rand else hint

/-- The five lowest hints stand for points below zero, and those pick the first
destination whatever the map says. -/
def HintOk (cnf : Cnf) (env : ChooseEnv) (r : Router) (hint : UInt32) : Prop :=
  5 ≤ (policyHint cnf env hint).toNat ∨
    ∀ d ∈ r.dst[0]?, glbDblEpsilon ≤ d.dst.weight ∧ env.now - d.failed > routerRetryInterval cnf

instance (cnf : Cnf) (env : ChooseEnv) (r : Router) (hint : UInt32) :
    Decidable (HintOk cnf env r hint) :=
  inferInstanceAs (Decidable (_ ∨ ∀ d ∈ r.dst[0]?, _ ∧ _))

theorem hint_point_nonneg (hint : UInt32) : 0 ≤ hintPoint hint ↔ 5 ≤ hint.toNat := by
  unfold hintPoint routerDivProt
  rw [sub_nonneg, div_le_div_iff₀ (by norm_num) (by norm_num)]
  norm_cast
  omega

theorem map_policy (he : cnf.extra = 0) (hu : routerUsesMap cnf = true) (r : Router) (hint : UInt32) :
    (routerPolicy cnf env r hint).2 = ((routerReady cnf r).dst.map RouterDst.map).findIdx?
      (fun c => hintPoint (policyHint cnf env hint) < c) := by
  unfold routerPolicy policyHint
  cases hc : cnf.policy with
  | least => simp [routerUsesMap, hc, Policy.toNat] at hu
  | round => simp [routerUsesMap, hc, Policy.toNat] at hu
  | single => simp [routerUsesMap, hc, Policy.toNat] at hu
  | random => simp [hint_spec he hu]
  | source => simp [hint_spec he hu]

theorem ready_core (cnf : Cnf) (r : Router) : (routerReady cnf r).dst.map mapInput = r.dst.map mapInput := by
  unfold routerReady routerExpireMap
  repeat' split
  · exact redo_map_core r
  · rfl
  · rfl

theorem ready_ctx (cnf : Cnf) (r : Router) : (routerReady cnf r).ctx = r.ctx := by
  unfold routerReady routerExpireMap
  repeat' split
  · exact redo_map_ctx r
  · rfl
  · rfl

theorem ready_first (cnf : Cnf) (now : Int) (r : Router) :
    ((routerReady cnf (routerPrepare cnf now r)).dst[0]?).map mapInput = (r.dst[0]?).map mapInput := by
  rw [← List.getElem?_map, ready_core, (prepare_dst cnf now r).1, List.getElem?_map]

theorem below_picks_first (ds : List RouterDst) (x : ℚ) (hx : x < 0) (hn : ∀ d ∈ ds, 0 ≤ d.map) :
    (ds.map RouterDst.map).findIdx? (fun c => x < c) = (ds[0]?).map (fun _ => 0) := by
  cases ds with
  | nil => rfl
  | cons d ds =>
    have hd : x < d.map := lt_of_lt_of_le hx (hn d (by simp))
    simp [List.findIdx?_cons, hd]

/-- A map policy with a sound map is sound at every hint that stands for a point
of the interval, and at the five others exactly if the first destination is
eligible. -/
theorem map_choice_sound (he : cnf.extra = 0) (hu : routerUsesMap cnf = true)
    (hs : MapSound cnf (routerReady cnf (routerPrepare cnf env.now r))) (hint : UInt32) :
    ChoiceSound cnf env r hint ↔ HintOk cnf env r hint := by
  obtain ⟨_, hnow, hretry⟩ := prepare_dst cnf env.now r
  have hfirst := ready_first cnf env.now r
  have hctx := ready_ctx cnf (routerPrepare cnf env.now r)
  rw [sound_ready he, map_policy he hu]
  generalize routerReady cnf (routerPrepare cnf env.now r) = q at hs hfirst hctx ⊢
  have hel : ∀ d, Eligible q d ↔
      glbDblEpsilon ≤ d.dst.weight ∧ env.now - d.failed > routerRetryInterval cnf := by
    intro d
    rw [Eligible, hctx, hnow, hretry]
  by_cases h5 : 5 ≤ (policyHint cnf env hint).toNat
  · refine ⟨fun _ => Or.inl h5, fun _ i hi => ?_⟩
    have hshare := pick_share_pos _ 0 _ ((hint_point_nonneg _).mpr h5) i hi
    obtain ⟨hlt, _, _⟩ := List.findIdx?_eq_some_iff_getElem.mp hi
    have hlen : i < q.dst.length := by simpa using hlt
    have hd : q.dst[i]? = some q.dst[i] := List.getElem?_eq_getElem hlen
    refine ⟨_, hd, (hel _).mpr ?_⟩
    have := hs.owned i _ hd hshare
    rwa [hctx, hnow] at this
  · have hneg : hintPoint (policyHint cnf env hint) < 0 := by
      rw [← not_le, hint_point_nonneg]
      exact h5
    rw [below_picks_first _ _ hneg hs.nonneg, HintOk, or_iff_right h5]
    cases hq : q.dst[0]? with
    | none =>
      have hnil : r.dst[0]? = none := by simpa [hq] using hfirst.symm
      simp [hnil]
    | some e =>
      obtain ⟨d, hd, hcore⟩ : ∃ d, r.dst[0]? = some d ∧ mapInput d = mapInput e := by
        simpa [hq] using hfirst.symm
      simp only [mapInput, Prod.mk.injEq] at hcore
      simp [hq, hd, hel, hcore.1, hcore.2]

/-- In every run with a steady clock whose reports the router acts on, a choice
of the map policies is sound exactly if its hint is not one of the five lowest
or the first destination is eligible. The other policies are always sound. -/
theorem selection_sound_iff (he : cnf.extra = 0)
    (ha : Along (routerStep cnf) (SelectOk cnf) Router.init ops)
    (hr : exec (routerStep cnf) Router.init ops = some r)
    (env : ChooseEnv) (hint : UInt32) (hc : SelectOk cnf r (.choose env hint)) :
    ChoiceSound cnf env r hint ↔ (routerUsesMap cnf = true → HintOk cnf env r hint) := by
  cases hu : routerUsesMap cnf with
  | false => simp [plain_sound he hu]
  | true =>
    have hs : MapSound cnf r := exec_keeps (step_choice_sound he hu) (init_sound cnf) ha hr
    rw [map_choice_sound he hu (choose_sound hu hs (hc hu).1)]
    simp

/-- The surviving server of two takes over. -/
theorem selection_sound_iff_fail_once :
    ChoiceSound sourceMap (chooseAt 102) (reached sourceMap mapFailOnce) 0x10000000 ∧
      (routerChooseDst sourceMap (chooseAt 102) (reached sourceMap mapFailOnce) 0x10000000).2 =
        some 1 := by
  have ha : Along (routerStep sourceMap) (SelectOk sourceMap) Router.init mapFailOnce := by
    decide +kernel
  refine ⟨(selection_sound_iff rfl ha ?_ _ _ ?_).mpr ?_, ?_⟩
  all_goals decide +kernel

/-- The only server is drained, yet a client with the lowest hint is sent to it. -/
theorem selection_unsound_lowest_hint :
    exec (routerStep sourceMap) Router.init [setAt 100 serverA 0] =
      some (reached sourceMap [setAt 100 serverA 0]) ∧
    SelectOk sourceMap (reached sourceMap [setAt 100 serverA 0]) (.choose (chooseAt 100) 0) ∧
    ¬ ChoiceSound sourceMap (chooseAt 100) (reached sourceMap [setAt 100 serverA 0]) 0 := by
  refine ⟨by decide +kernel, by decide +kernel, ?_⟩
  intro hs
  have hnone := hs.2 (by decide +kernel)
  revert hnone
  decide +kernel

end Glb.Proofs.Selection
