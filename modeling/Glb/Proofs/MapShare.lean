import Glb.Lib.Share
import Glb.Proofs.TopDst
import Mathlib.Algebra.Order.BigOperators.Group.List

namespace Glb.Proofs.MapShare
open RouterFrame RouterRun TopDst Lib.Run Lib.Share

variable {cnf : Cnf} {r r' : Router} {d : RouterDst} {i : Nat} {now : Int}

/-- What a rebuild of the map keeps of a destination. -/
def mapInput (d : RouterDst) : Dst × Int := (d.dst, d.failed)

theorem normalize_map (total m : ℚ) (ds : List RouterDst) :
    (redoMapNormalize total m ds).map RouterDst.map = cuts total m (ds.map RouterDst.map) := by
  induction ds generalizing m with
  | nil => rfl
  | cons d ds ih => simp [redoMapNormalize, cuts, ih]

theorem normalize_core (total m : ℚ) (ds : List RouterDst) :
    (redoMapNormalize total m ds).map mapInput = ds.map mapInput := by
  induction ds generalizing m with
  | nil => rfl
  | cons d ds ih => simp [redoMapNormalize, mapInput, ih]

theorem weigh_core (ctx : RouterCtx) (ds : List RouterDst) :
    (ds.map (redoMapWeigh ctx)).map mapInput = ds.map mapInput := by
  simp [Function.comp_def, mapInput, redoMapWeigh]

theorem redo_map_core (r : Router) : (routerRedoMap r).dst.map mapInput = r.dst.map mapInput := by
  simp only [routerRedoMap]
  split
  · exact weigh_core r.ctx r.dst
  · rw [normalize_core]
    exact weigh_core r.ctx r.dst

/-- The weight a rebuild assigns to a destination. -/
def goodWeight (ctx : RouterCtx) (d : RouterDst) : ℚ :=
  if routerDstIsGood d ctx.minWeight ctx.now ctx.retry then d.dst.weight else 0

theorem good_weight_nonneg (ctx : RouterCtx) (hm : 0 < ctx.minWeight) (d : RouterDst) :
    0 ≤ goodWeight ctx d := by
  unfold goodWeight
  split
  · rename_i hg
    rw [good_iff] at hg
    linarith [hg.1]
  · exact le_refl 0

theorem weigh_maps (r : Router) :
    (r.dst.map (redoMapWeigh r.ctx)).map RouterDst.map = r.dst.map (goodWeight r.ctx) := by
  simp [Function.comp_def, redoMapWeigh, goodWeight]

/-- A rebuild cuts the unit interval in proportion to the good weights. -/
theorem redo_map_total (r : Router) (ht : (r.dst.map (goodWeight r.ctx)).sum ≠ 0) :
    (routerRedoMap r).dst.map RouterDst.map =
      cuts (r.dst.map (goodWeight r.ctx)).sum 0 (r.dst.map (goodWeight r.ctx)) := by
  simp only [routerRedoMap, weigh_maps, ht, ↓reduceIte]
  rw [normalize_map, weigh_maps]

/-- With no good destination every end is zero, as the early return leaves it. -/
theorem redo_map_cuts (r : Router) (hm : 0 < r.ctx.minWeight) :
    (routerRedoMap r).dst.map RouterDst.map =
      cuts (r.dst.map (goodWeight r.ctx)).sum 0 (r.dst.map (goodWeight r.ctx)) := by
  by_cases h0 : (r.dst.map (goodWeight r.ctx)).sum = 0
  · have hnonneg : ∀ w ∈ r.dst.map (goodWeight r.ctx), 0 ≤ w := by
      intro w hw
      obtain ⟨d, _, rfl⟩ := List.mem_map.mp hw
      exact good_weight_nonneg r.ctx hm d
    have hz : ∀ w ∈ r.dst.map (goodWeight r.ctx), w = 0 := by
      intro w hw
      exact List.all_zero_of_le_zero_le_of_sum_eq_zero hnonneg h0 hw
    simp only [routerRedoMap, weigh_maps, h0, ↓reduceIte]
    rw [cuts_zero _ _ _ hz, ← List.map_id (r.dst.map (goodWeight r.ctx))]
    simpa using hz
  · exact redo_map_total r h0

/-- The weight of a destination as far as it takes part in balancing. -/
def weigh (w : ℚ) (d : Dst) : ℚ := if w ≤ d.weight then d.weight else 0

/-- The map of a table none of whose destinations is failed. -/
def idealMap (w : ℚ) (ds : List Dst) : List ℚ :=
  cuts (ds.map (weigh w)).sum 0 (ds.map (weigh w))

/-- The cached map is the ideal one. -/
def MapFresh (r : Router) : Prop :=
  r.dst.map RouterDst.map = idealMap (topWeight r) (r.dst.map RouterDst.dst)

theorem fresh_of_rows (ht : r'.topDst = r.topDst)
    (hd : r'.dst.map RouterDst.dst = r.dst.map RouterDst.dst)
    (hm : r'.dst.map RouterDst.map = r.dst.map RouterDst.map) (hf : MapFresh r) : MapFresh r' := by
  unfold MapFresh
  rw [hm, hd, top_weight_of_rows ht hd]
  exact hf

/-- Every destination inside its retry window is lighter than the minimal weight. -/
def FailedLight (r : Router) : Prop :=
  ∀ d ∈ r.dst, routerDstIsGoodBase d r.ctx.now r.ctx.retry = true ∨ d.dst.weight < r.ctx.minWeight

theorem clear_min (hm : r.ctx.minWeight = routerMinWeight r) (hc : FailedLight r) :
    r.ctx.minWeight = topWeight r := by
  cases ht : r.top with
  | none => simp [hm, routerMinWeight, topWeight, ht]
  | some t =>
    rcases hc t (top_mem ht) with hb | hw
    · rw [hm]
      apply min_eq_top_weight
      intro d hd
      rw [ht, Option.some.injEq] at hd
      exact hd ▸ hb
    · -- a top destination that the minimal weight exceeds is not the one it was taken from
      have hne : routerTopDstIsGood r = false := by
        by_contra hg
        rw [Bool.not_eq_false] at hg
        simp [hm, routerMinWeight, ht, hg] at hw
      rw [hm] at hw ⊢
      simp only [routerMinWeight, ht, hne, Bool.false_eq_true, ↓reduceIte] at hw ⊢
      simp [topWeight, ht, max_eq_left (le_of_lt hw)]

theorem redo_map_dsts (r : Router) :
    (routerRedoMap r).dst.map RouterDst.dst = r.dst.map RouterDst.dst := by
  have := congrArg (List.map Prod.fst) (redo_map_core r)
  simpa [mapInput, Function.comp_def] using this

theorem redo_map_top (r : Router) : (routerRedoMap r).topDst = r.topDst ∧
    (routerRedoMap r).topFailed = r.topFailed ∧ (routerRedoMap r).mapFailed = r.mapFailed := by
  simp only [routerRedoMap]
  split <;> exact ⟨rfl, rfl, rfl⟩

/-- A rebuild over a clear table yields the ideal map. -/
theorem redo_map_fresh (hm : r.ctx.minWeight = routerMinWeight r) (hc : FailedLight r) :
    MapFresh (routerRedoMap r) := by
  have htop := clear_min hm hc
  have hpos := min_weight_pos hm
  have hws : r.dst.map (goodWeight r.ctx) =
      (r.dst.map RouterDst.dst).map (weigh (topWeight r)) := by
    rw [List.map_map]
    apply List.map_congr_left
    intro d hd
    simp only [goodWeight, weigh, Function.comp_apply, routerDstIsGood, ← htop]
    rcases hc d hd with hb | hw
    · simp [hb]
    · simp [not_le.mpr hw]
  unfold MapFresh
  rw [redo_map_cuts r hpos, redo_map_dsts,
    top_weight_of_rows (redo_map_top r).1 (redo_map_dsts r), hws]
  rfl

/-- A rebuild is scheduled, and not before the mark of some destination runs out. -/
def MapScheduled (r : Router) : Prop := r.mapFailed ≠ 0 ∧ ∃ d ∈ r.dst, r.mapFailed ≤ d.failed

/-- `router_choose_dst_hint` at `now` finds the scheduled rebuild due. -/
def MapExpired (cnf : Cnf) (r : Router) (now : Int) : Prop :=
  r.mapFailed ≠ 0 ∧ now - r.mapFailed > routerRetryInterval cnf

/-- A choice at `now` finds the destinations inside their retry window drained
or lighter than an available top destination. -/
def QuietChoose (cnf : Cnf) (r : Router) (now : Int) : Prop :=
  ∀ d ∈ r.dst, routerDstIsGoodBase d now (routerRetryInterval cnf) = true ∨
    d.dst.weight < glbDblEpsilon ∨
    ∃ t ∈ r.top, routerDstIsGoodBase t now (routerRetryInterval cnf) = true ∧
      d.dst.weight < t.dst.weight

/-- The same of an edited table, whose top destination is yet to be found. -/
def QuietChange (cnf : Cnf) (r : Router) (now : Int) : Prop :=
  ∀ d ∈ r.dst, routerDstIsGoodBase d now (routerRetryInterval cnf) = true ∨
    d.dst.weight < glbDblEpsilon ∨
    cnf.top = true ∧ ∃ g ∈ r.dst, routerDstIsGoodBase g now (routerRetryInterval cnf) = true ∧
      d.dst.weight * redoTopFactor ≤ g.dst.weight

/-- Every recomputation sees a quiet table, or leaves a rebuild scheduled; and no
failure is reported at time zero, which `map_failed` cannot tell from none. -/
def MapOk (cnf : Cnf) (r : Router) : RouterOp → Prop
  | .change env dst probeCtx => ∀ r' ∈ routerEdit env r dst probeCtx,
      QuietChange cnf r' env.now ∨ MapScheduled r'
  | .choose env _ =>
      TopExpired cnf r env.now ∨ MapExpired cnf r env.now → QuietChoose cnf r env.now
  | .disconnect now _ failed => failed = true → now ≠ 0
  | .chooseAgain now env _ dst => now ≠ 0 ∧
      let r' := glbRouterDisconnect cnf now r dst true
      (TopExpired cnf r' env.now ∨ MapExpired cnf r' env.now → QuietChoose cnf r' env.now)

instance (r : Router) : Decidable (MapScheduled r) :=
  inferInstanceAs (Decidable (_ ∧ ∃ d ∈ r.dst, _))

instance (cnf : Cnf) (r : Router) (now : Int) : Decidable (MapExpired cnf r now) :=
  inferInstanceAs (Decidable (_ ∧ _))

instance (cnf : Cnf) (r : Router) (now : Int) : Decidable (QuietChoose cnf r now) :=
  inferInstanceAs (Decidable (∀ d ∈ r.dst, _ ∨ _ ∨ ∃ t ∈ r.top, _ ∧ _))

instance (cnf : Cnf) (r : Router) (now : Int) : Decidable (QuietChange cnf r now) :=
  inferInstanceAs (Decidable (∀ d ∈ r.dst, _ ∨ _ ∨ _ ∧ ∃ g ∈ r.dst, _ ∧ _))

instance (cnf : Cnf) (r : Router) : (op : RouterOp) → Decidable (MapOk cnf r op)
  | .change env dst probeCtx =>
    inferInstanceAs (Decidable (∀ r' ∈ routerEdit env r dst probeCtx, _ ∨ _))
  | .choose _ _ => inferInstanceAs (Decidable (_ → _))
  | .disconnect _ _ _ => inferInstanceAs (Decidable (_ → _))
  | .chooseAgain _ _ _ _ => inferInstanceAs (Decidable (_ ∧ (_ → _)))

/-- The invariant of the map. While a top recomputation is pending the top
destination must not move under a fresh map, hence the second conjunct. -/
structure MapKept (cnf : Cnf) (r : Router) : Prop where
  kept : (MapFresh r ∧ (r.topFailed = 0 ∨ Maximal r)) ∨ MapScheduled r
  behind : r.topFailed ≠ 0 → r.mapFailed ≠ 0 ∧ r.topFailed ≤ r.mapFailed
  order : r.mapFailed ≤ r.ctx.now
  clock : 0 ≤ r.ctx.now
  off : cnf.top = false → r.topDst = none ∧ r.topFailed = 0

theorem alike_maps (h : Alike r r') : r'.dst.map RouterDst.map = r.dst.map RouterDst.map := by
  have := congrArg (List.map (fun x => x.2.1)) h.rows
  simpa [row, Function.comp_def] using this

theorem alike_map_kept (h : Alike r r') (hk : MapKept cnf r) : MapKept cnf r' := by
  refine ⟨?_, ?_, ?_, ?_, ?_⟩
  · rcases hk.kept with ⟨hf, hm⟩ | ⟨hn, d, hd, hle⟩
    · refine Or.inl ⟨fresh_of_rows h.topDst (alike_dsts h) (alike_maps h) hf, ?_⟩
      rw [h.topFailed]
      exact hm.imp id (maximal_of_rows h.topDst (alike_dsts h))
    · obtain ⟨d', hd', hrow⟩ := h.symm.mem hd
      refine Or.inr ⟨by rw [h.mapFailed]; exact hn, d', hd', ?_⟩
      rw [h.mapFailed, (row_eq_iff.mp hrow).2.2]
      exact hle
  · rw [h.topFailed, h.mapFailed]
    exact hk.behind
  · rw [h.mapFailed, h.ctx]
    exact hk.order
  · rw [h.ctx]
    exact hk.clock
  · rw [h.topDst, h.topFailed]
    exact hk.off

theorem quiet_update_clear (hq : QuietChoose cnf r now) : FailedLight (routerUpdateCtx cnf now r) := by
  have hmin := update_ctx_min cnf now r
  have heps := epsilon_le_min (routerUpdateCtx cnf now r)
  rw [← hmin] at heps
  intro d hd
  rcases hq d hd with hb | hw | ⟨t, ht, hb, hw⟩
  · exact Or.inl hb
  · exact Or.inr (lt_of_lt_of_le hw heps)
  · right
    have htop : (routerUpdateCtx cnf now r).top = some t := ht
    by_cases he : glbDblEpsilon ≤ t.dst.weight
    · have hgood : routerTopDstIsGood (routerUpdateCtx cnf now r) = true := by
        simp only [routerTopDstIsGood, htop, Bool.and_eq_true, ge_iff_le, decide_eq_true_eq]
        exact ⟨he, hb⟩
      rw [hmin]
      simpa [routerMinWeight, htop, hgood] using hw
    · linarith

theorem redo_top_clear (hm : r.ctx.minWeight = routerMinWeight r) (hc : FailedLight r) :
    FailedLight (routerRedoTop r) := by
  intro d hd
  rcases hc d hd with hb | hw
  · exact Or.inl hb
  · exact Or.inr (lt_of_lt_of_le hw (redo_top_spec r hm).raised)

theorem prepare_clear (hq : QuietChoose cnf r now) : FailedLight (routerPrepare cnf now r) := by
  have hu := quiet_update_clear hq
  rcases prepare_cases cnf now r with ⟨_, _, hp⟩ | ⟨_, hp⟩ <;> rw [hp]
  · exact redo_top_clear (update_ctx_min cnf now r) hu
  · exact hu

/-- A top destination that is the heaviest available stays when it is recomputed. -/
theorem redo_top_still (hm : r.ctx.minWeight = topWeight r) (hx : Maximal r) :
    routerRedoTop r = r := by
  have hpos : 0 < r.ctx.minWeight := by
    rw [hm, topWeight]
    cases r.top with
    | none => exact epsilon_pos
    | some t => exact lt_of_lt_of_le epsilon_pos (le_max_left _ _)
  obtain ⟨_, _, hres⟩ :=
    redo_top_loop_spec r.ctx.now r.ctx.retry r.dst 0 r.topDst r.ctx.minWeight hpos
  rcases hres with hres | ⟨j, d, hd, _, hw, _⟩
  · simp [routerRedoTop, hres]
  · have hlt := hx d (List.mem_of_getElem? hd)
    rw [← hm] at hlt
    exact absurd hw (not_le.mpr hlt)

theorem prepare_map_kept (hk : MapKept cnf r) (hc : r.ctx.now ≤ now)
    (hq : TopExpired cnf r now → QuietChoose cnf r now) :
    MapKept cnf (routerPrepare cnf now r) := by
  have ho : r.mapFailed ≤ now := le_trans hk.order hc
  have hn : 0 ≤ now := le_trans hk.clock hc
  rcases prepare_cases cnf now r with ⟨ht, hx, hp⟩ | ⟨_, hp⟩ <;> rw [hp]
  · refine ⟨?_, fun h => absurd rfl h, ho, hn, fun hf => by simp [ht] at hf⟩
    rcases hk.kept with ⟨hf, hm⟩ | hs
    · have hmax : Maximal (routerUpdateCtx cnf now r) :=
        maximal_of_rows rfl rfl (hm.resolve_left hx.1)
      rw [redo_top_still (clear_min rfl (quiet_update_clear (hq hx))) hmax]
      exact Or.inl ⟨hf, Or.inl rfl⟩
    · exact Or.inr hs
  · exact ⟨hk.kept, hk.behind, ho, hn, hk.off⟩

/-- The two shapes of the router a map policy decides on. -/
theorem ready_cases (hu : routerUsesMap cnf = true) (hr : r.ctx.retry = routerRetryInterval cnf) :
    (MapExpired cnf r r.ctx.now ∧ routerReady cnf r = { routerRedoMap r with mapFailed := 0 }) ∨
    ((r.dst = [] ∨ ¬ MapExpired cnf r r.ctx.now) ∧ routerReady cnf r = r) := by
  unfold routerReady routerExpireMap
  by_cases hl : r.dst = []
  · simp [hl]
  · by_cases hx : MapExpired cnf r r.ctx.now
    · exact Or.inl ⟨hx, by simp [hu, hl, hx.1, hr, hx.2]⟩
    · refine Or.inr ⟨Or.inr hx, ?_⟩
      simp only [hu, ne_eq, List.length_eq_zero_iff, hl, not_false_eq_true, decide_true,
        Bool.and_self, ↓reduceIte, Bool.true_and]
      split
      · rename_i h
        simp only [Bool.and_eq_true, decide_eq_true_eq, hr] at h
        exact absurd h hx
      · rfl

theorem ready_map_kept (hu : routerUsesMap cnf = true) (hk : MapKept cnf r)
    (hr : r.ctx.retry = routerRetryInterval cnf) (hm : r.ctx.minWeight = routerMinWeight r)
    (hc : MapExpired cnf r r.ctx.now → FailedLight r)
    (ht : cnf.top = true → ¬ TopExpired cnf r r.ctx.now) : MapKept cnf (routerReady cnf r) := by
  obtain ⟨hdst, htf, _⟩ := redo_map_top r
  rcases ready_cases hu hr with ⟨hx, hq⟩ | ⟨_, hq⟩ <;> rw [hq]
  · -- the top recomputation is due no later than the rebuild, so it is not pending
    have hnone : r.topFailed = 0 := by
      by_contra h0
      obtain ⟨_, hle⟩ := hk.behind h0
      cases hcnf : cnf.top with
      | false => exact h0 (hk.off hcnf).2
      | true => exact ht hcnf ⟨h0, by have := hx.2; omega⟩
    have hfresh : MapFresh { routerRedoMap r with mapFailed := 0 } := redo_map_fresh hm (hc hx)
    refine ⟨Or.inl ⟨hfresh, Or.inl (by simp [htf, hnone])⟩, ?_, ?_, ?_, ?_⟩
    · intro h0
      exact absurd (htf.trans hnone) h0
    · simpa [redo_map_ctx] using hk.clock
    · simpa [redo_map_ctx] using hk.clock
    · simpa [hdst, htf] using hk.off
  · exact hk

theorem redo_map_mem (hd : d ∈ r.dst) : ∃ d' ∈ (routerRedoMap r).dst, mapInput d' = mapInput d := by
  have hmem : mapInput d ∈ (routerRedoMap r).dst.map mapInput := by
    rw [redo_map_core]
    exact List.mem_map_of_mem hd
  exact List.mem_map.mp hmem

theorem redo_map_scheduled (h0 : r.mapFailed ≠ 0) (hd : d ∈ r.dst) (hle : r.mapFailed ≤ d.failed) :
    MapScheduled (routerRedoMap r) := by
  obtain ⟨d', hd', he⟩ := redo_map_mem hd
  have hf : d'.failed = d.failed := congrArg Prod.snd he
  rw [MapScheduled, (redo_map_top r).2.2]
  exact ⟨h0, d', hd', hf ▸ hle⟩

theorem redone_clear_maximal (h : Redone r r') (hc : FailedLight r') : Maximal r' := by
  have hmin := clear_min h.minWeight hc
  have hpos : 0 < r'.ctx.minWeight := by
    rw [h.minWeight]
    exact lt_of_lt_of_le epsilon_pos (epsilon_le_min r')
  intro d hd
  rw [← hmin]
  rcases hc d hd with hb | hw
  · exact h.above d hd hb
  · exact lt_trans hw (lt_mul_factor hpos)

/-- The recomputed top destination of a quiet table is heavier than whatever is
inside its retry window. -/
theorem quiet_change_clear (hq : QuietChange cnf r now) :
    FailedLight (routerRedoTop (routerUpdateCtx cnf now r)) := by
  have hred := redo_top_spec _ (update_ctx_min cnf now r)
  have heps := epsilon_le_min (routerRedoTop (routerUpdateCtx cnf now r))
  rw [← hred.minWeight] at heps
  intro d hd
  rcases hq d hd with hb | hw | ⟨_, g, hg, hb, hw⟩
  · exact Or.inl hb
  · exact Or.inr (lt_of_lt_of_le hw heps)
  · right
    have hlt := lt_of_le_of_lt hw (hred.above g hg hb)
    exact lt_of_mul_lt_mul_right hlt (by linarith [factor_gt_one])

theorem quiet_change_clear_off (hq : QuietChange cnf r now) (ht : cnf.top = false) :
    FailedLight (routerUpdateCtx cnf now r) := by
  apply quiet_update_clear
  intro d hd
  rcases hq d hd with hb | hw | ⟨htop, _⟩
  · exact Or.inl hb
  · exact Or.inr (Or.inl hw)
  · simp [ht] at htop

/-- The router on which an effective change rebuilds the map. -/
def routerRetop (cnf : Cnf) (now : Int) (r : Router) : Router :=
  if cnf.top then routerRedoTop (routerUpdateCtx cnf now r) else routerUpdateCtx cnf now r

theorem retop_fresh (hq : QuietChange cnf r now) (hoff : cnf.top = false → r.topFailed = 0) :
    MapFresh (routerRedoMap (routerRetop cnf now r)) ∧
      (r.topFailed = 0 ∨ Maximal (routerRetop cnf now r)) := by
  unfold routerRetop
  cases ht : cnf.top with
  | true =>
    have hred := redo_top_spec _ (update_ctx_min cnf now r)
    have hc := quiet_change_clear hq
    exact ⟨redo_map_fresh hred.minWeight hc, Or.inr (redone_clear_maximal hred hc)⟩
  | false =>
    exact ⟨redo_map_fresh rfl (quiet_change_clear_off hq ht), Or.inl (hoff ht)⟩

theorem retop_fields (cnf : Cnf) (now : Int) (r : Router) :
    (routerRetop cnf now r).dst = r.dst ∧ (routerRetop cnf now r).ctx.now = now ∧
      (routerRetop cnf now r).topFailed = r.topFailed ∧
      (routerRetop cnf now r).mapFailed = r.mapFailed ∧
      (cnf.top = false → (routerRetop cnf now r).topDst = r.topDst) := by
  unfold routerRetop
  cases cnf.top with
  | true => exact ⟨rfl, rfl, rfl, rfl, by simp⟩
  | false => exact ⟨rfl, rfl, rfl, rfl, fun _ => rfl⟩

theorem redo_map_kept (hu : routerUsesMap cnf = true)
    (hq : QuietChange cnf r now ∨ MapScheduled r)
    (hb : r.topFailed ≠ 0 → r.mapFailed ≠ 0 ∧ r.topFailed ≤ r.mapFailed)
    (ho : r.mapFailed ≤ now) (hn : 0 ≤ now)
    (hoff : cnf.top = false → r.topDst = none ∧ r.topFailed = 0) :
    MapKept cnf (routerRedo cnf now r) := by
  have he : routerRedo cnf now r = routerRedoMap (routerRetop cnf now r) := by
    simp [routerRedo, routerRetop, hu]
  obtain ⟨hdst, hnow, htf, hmf, htd⟩ := retop_fields cnf now r
  obtain ⟨htd', htf', hmf'⟩ := redo_map_top (routerRetop cnf now r)
  rw [he]
  refine ⟨?_, ?_, ?_, ?_, ?_⟩
  · rcases hq with hq | ⟨h0, d, hd, hle⟩
    · obtain ⟨hf, hm⟩ := retop_fresh hq (fun h => (hoff h).2)
      refine Or.inl ⟨hf, ?_⟩
      rw [htf', htf]
      exact hm.imp id (maximal_of_rows htd' (redo_map_dsts _))
    · exact Or.inr (redo_map_scheduled (hmf ▸ h0) (hdst ▸ hd) (hmf ▸ hle))
  · rw [htf', htf, hmf', hmf]
    exact hb
  · rw [hmf', hmf, redo_map_ctx, hnow]
    exact ho
  · rw [redo_map_ctx, hnow]
    exact hn
  · intro h
    rw [htd', htd h, htf', htf]
    exact hoff h

/-- A failure report of a destination that takes part in the map schedules the
rebuild with its own mark. Any other report only moves a mark past the schedule. -/
theorem failed_map_kept (hu : routerUsesMap cnf = true) (hk : MapKept cnf r)
    (hc : r.ctx.now ≤ now) (hn : now ≠ 0) (i : Nat) : MapKept cnf (routerDstFailed cnf now r i) := by
  have hpos : 0 ≤ now := le_trans hk.clock hc
  have hmf : r.mapFailed ≤ now := le_trans hk.order hc
  have htf : r.topFailed ≤ now := by
    by_cases h0 : r.topFailed = 0
    · omega
    · exact le_trans (hk.behind h0).2 hmf
  have hf := failed_cases cnf now r i
  generalize routerDstFailed cnf now r i = q at hf ⊢
  cases hf with
  | unlisted _ => exact hk
  | wasBad hd _ =>
    refine ⟨?_, hk.behind, hmf, hpos, hk.off⟩
    rcases hk.kept with ⟨hfresh, hm⟩ | ⟨h0, _⟩
    · have hds := mark_dsts r.dst i now
      refine Or.inl ⟨fresh_of_rows (r := r) rfl hds (mark_maps r.dst i now) hfresh, ?_⟩
      exact hm.imp id (maximal_of_rows (r := r) rfl hds)
    · exact Or.inr ⟨h0, _, mark_mem r.dst i now hd, hmf⟩
  | retops _ _ hn => simp [hu] at hn
  | remaps hd _ _ =>
    have hdst : (retopped cnf now r i).dst = r.dst.modify i (fun d => { d with failed := now }) := by
      unfold retopped
      split <;> rfl
    have htop : (retopped cnf now r i).topFailed ≤ now ∧ (cnf.top = false →
        (retopped cnf now r i).topDst = none ∧ (retopped cnf now r i).topFailed = 0) := by
      unfold retopped
      split
      · rename_i htop
        refine ⟨le_refl now, fun hcnf => ?_⟩
        rw [(hk.off hcnf).1] at htop
        cases htop
      · exact ⟨htf, hk.off⟩
    obtain ⟨htd', htf', _⟩ := redo_map_top (retopped cnf now r i)
    obtain ⟨e, he, hcore⟩ := redo_map_mem (hdst ▸ mark_mem r.dst i now hd)
    have hfail : e.failed = now := congrArg Prod.snd hcore
    have hnow := retopped_now cnf now r i
    refine ⟨Or.inr ⟨hn, e, he, hfail ▸ le_refl now⟩, ?_, ?_, ?_, ?_⟩
    · intro _
      exact ⟨hn, by rw [htf']; exact htop.1⟩
    · simp [redo_map_ctx, hnow]
    · simpa [redo_map_ctx, hnow] using hpos
    · simpa [htd', htf'] using htop.2

theorem choose_map_kept (hu : routerUsesMap cnf = true) (hk : MapKept cnf r)
    (hc : r.ctx.now ≤ now)
    (hq : TopExpired cnf r now ∨ MapExpired cnf r now → QuietChoose cnf r now) :
    MapKept cnf (routerReady cnf (routerPrepare cnf now r)) := by
  obtain ⟨_, hnow, hretry⟩ := prepare_dst cnf now r
  have hmf : (routerPrepare cnf now r).mapFailed = r.mapFailed := by
    rcases prepare_cases cnf now r with ⟨_, _, hp⟩ | ⟨_, hp⟩ <;> rw [hp] <;> rfl
  apply ready_map_kept hu (prepare_map_kept hk hc (fun h => hq (Or.inl h))) hretry
    (prepare_min cnf now r)
  · rw [hnow, MapExpired, hmf]
    intro hx
    exact prepare_clear (hq (Or.inr hx))
  · intro ht
    rw [hnow]
    exact prepare_not_expired ht now r

theorem step_map_kept (he : cnf.extra = 0) (hu : routerUsesMap cnf = true) :
    ∀ r op r', MapKept cnf r → (ClockOk r op ∧ MapOk cnf r op) → routerStep cnf r op = some r' →
      MapKept cnf r' := by
  apply step_keeps (MapKept cnf) (fun r op => ClockOk r op ∧ MapOk cnf r op) he
  · intro r r' h hk
    exact alike_map_kept h hk
  · intro r env dst ctx r' hk hok hr
    obtain ⟨_, htf, hmf, htd⟩ := edit_fields hr
    have hc : r.ctx.now ≤ env.now := hok.1
    refine redo_map_kept hu (hok.2 r' hr) ?_ ?_ (le_trans hk.clock hc) ?_
    · rw [htf, hmf]
      exact hk.behind
    · rw [hmf]
      exact le_trans hk.order hc
    · intro h
      obtain ⟨hnone, h0⟩ := hk.off h
      exact ⟨htd.elim id (fun h' => h'.trans hnone), htf.trans h0⟩
  · intro r env hint hk hok
    exact choose_map_kept hu hk hok.1 hok.2
  · intro r now addr i hk hok _
    exact failed_map_kept hu (alike_map_kept (count_alike r i (-1)) hk) hok.1 (hok.2 rfl) i
  · intro r now env hint addr hok
    obtain ⟨hd, hc⟩ := clock_again cnf hok.1
    exact ⟨⟨hd, fun _ => hok.2.1⟩, hc, hok.2.2⟩

theorem init_map_kept (cnf : Cnf) : MapKept cnf Router.init :=
  ⟨Or.inl ⟨rfl, Or.inl rfl⟩, fun h => absurd rfl h, le_refl 0, le_refl 0, fun _ => ⟨rfl, rfl⟩⟩

/-- The weight that `ctx.min_weight` lets take part in balancing. -/
def totalWeight (r : Router) : ℚ :=
  ((r.dst.map RouterDst.dst).map (weigh r.ctx.minWeight)).sum

/-- What the map policies promise of a choice made when no failed mark is
younger than the retry interval. -/
def MapPromise (cnf : Cnf) (env : ChooseEnv) (r : Router) (hint : UInt32) : Prop :=
  (∀ d ∈ r.dst, routerDstIsGoodBase d env.now (routerRetryInterval cnf) = true) →
  let r' := (routerChooseDst cnf env r hint).1
  ∀ i d, r'.dst[i]? = some d → r'.ctx.minWeight ≤ d.dst.weight →
    share 0 (r'.dst.map RouterDst.map) i = d.dst.weight / totalWeight r'

theorem fresh_share (hf : MapFresh r) (hm : r.ctx.minWeight = topWeight r) (hd : r.dst[i]? = some d)
    (hw : r.ctx.minWeight ≤ d.dst.weight) :
    share 0 (r.dst.map RouterDst.map) i = d.dst.weight / totalWeight r := by
  rw [hf, idealMap, totalWeight, hm]
  apply share_cuts
  rw [hm] at hw
  simp [hd, weigh, hw]

/-- If every mark is old then no schedule is left open when the choice is made. -/
theorem ready_fresh (hu : routerUsesMap cnf = true) (hr : r.ctx.retry = routerRetryInterval cnf)
    (hk : MapKept cnf (routerReady cnf r))
    (hold : ∀ d ∈ r.dst, routerDstIsGoodBase d r.ctx.now (routerRetryInterval cnf) = true) :
    MapFresh (routerReady cnf r) := by
  rcases hk.kept with ⟨hf, _⟩ | hs
  · exact hf
  · rcases ready_cases hu hr with ⟨_, hq⟩ | ⟨hx, hq⟩ <;> rw [hq] at hs
    · exact absurd rfl hs.1
    · obtain ⟨h0, d, hd, hle⟩ := hs
      have hb := hold d hd
      rw [good_base_iff] at hb
      rcases hx with hnil | hx
      · simp [hnil] at hd
      · exact absurd ⟨h0, by omega⟩ hx

theorem ready_min (hu : routerUsesMap cnf = true) (hr : r.ctx.retry = routerRetryInterval cnf)
    (hm : r.ctx.minWeight = topWeight r) :
    (routerReady cnf r).ctx.minWeight = topWeight (routerReady cnf r) := by
  rcases ready_cases hu hr with ⟨_, hq⟩ | ⟨_, hq⟩ <;> rw [hq]
  · have htop : topWeight { routerRedoMap r with mapFailed := 0 } = topWeight r :=
      top_weight_of_rows (redo_map_top r).1 (redo_map_dsts r)
    rw [htop]
    simpa [redo_map_ctx] using hm
  · exact hm

/-- A run in which every recomputation sees a quiet table, or leaves a rebuild
scheduled, never leaves a destination out of the map for good. -/
theorem map_not_forgotten (he : cnf.extra = 0)
    (hp : cnf.policy = .random ∨ cnf.policy = .source)
    (ha : Along (routerStep cnf) (fun r op => ClockOk r op ∧ MapOk cnf r op) Router.init ops)
    (hr : exec (routerStep cnf) Router.init ops = some r)
    (env : ChooseEnv) (hint : UInt32) (hc : ClockOk r (.choose env hint)) :
    MapPromise cnf env r hint := by
  have hu : routerUsesMap cnf = true := by
    rcases hp with hp | hp <;> simp [routerUsesMap, hp, Policy.toNat]
  have hk : MapKept cnf r := exec_keeps (step_map_kept he hu) (init_map_kept cnf) ha hr
  intro hold r' i d hd hw
  have hquiet : QuietChoose cnf r env.now := fun d hd => Or.inl (hold d hd)
  obtain ⟨hdst, hnow, hretry⟩ := prepare_dst cnf env.now r
  have hready := choose_map_kept hu hk hc (fun _ => hquiet)
  have hfresh : MapFresh (routerReady cnf (routerPrepare cnf env.now r)) := by
    apply ready_fresh hu hretry hready
    rw [hdst, hnow]
    exact hold
  have hmin := ready_min hu hretry (clear_min (prepare_min cnf env.now r) (prepare_clear hquiet))
  have halike : Alike (routerReady cnf (routerPrepare cnf env.now r)) r' := choose_alike he env r hint
  have hmin' : r'.ctx.minWeight = topWeight r' := by
    rw [halike.ctx, hmin]
    exact (top_weight_of_rows halike.topDst (alike_dsts halike)).symm
  exact fresh_share (fresh_of_rows halike.topDst (alike_dsts halike) (alike_maps halike) hfresh)
    hmin' hd hw

def sourceMap : Cnf where
  policy := .source
  top := false
  interval := 10 ^ 9
  extra := 0
  maxConn := 0
  synchronous := false
  discover := false
  latFactor := 8

/-- One of two equal servers fails once and is retried two seconds later. -/
def mapFailOnce : List RouterOp :=
  [setAt 100 serverA 1, setAt 100 serverB 1, .choose (chooseAt 100) 0x10000000,
    .disconnect 101 serverA true, .choose (chooseAt 102) 0x10000000]

theorem map_not_forgotten_fail_once :
    MapPromise sourceMap (chooseAt 103) (reached sourceMap mapFailOnce) 0x10000000 ∧
      (routerChooseDst sourceMap (chooseAt 103) (reached sourceMap mapFailOnce) 0x10000000).2 =
        some 0 := by
  have ha : Along (routerStep sourceMap) (fun r op => ClockOk r op ∧ MapOk sourceMap r op)
      Router.init mapFailOnce := by decide +kernel
  refine ⟨map_not_forgotten rfl (by simp [sourceMap]) ha ?_ _ _ ?_, ?_⟩
  all_goals decide +kernel

/-- Two connections to one server fail in different seconds. The only scheduled
rebuild comes while the second mark is still fresh. -/
def mapFailTwice : List RouterOp :=
  [setAt 100 serverA 1, setAt 100 serverB 1, .choose (chooseAt 100) 0x10000000,
    .choose (chooseAt 100) 0x10000000, .disconnect 101 serverA true, .disconnect 102 serverA true,
    .choose (chooseAt 103) 0x10000000]

theorem map_forgotten_fail_twice :
    Along (routerStep sourceMap) ClockOk Router.init mapFailTwice ∧
    exec (routerStep sourceMap) Router.init mapFailTwice = some (reached sourceMap mapFailTwice) ∧
    ClockOk (reached sourceMap mapFailTwice) (.choose (chooseAt 104) 0x10000000) ∧
    ¬ MapPromise sourceMap (chooseAt 104) (reached sourceMap mapFailTwice) 0x10000000 := by
  refine ⟨by decide +kernel, by decide +kernel, by decide +kernel, ?_⟩
  intro hp
  let r := (routerChooseDst sourceMap (chooseAt 104) (reached sourceMap mapFailTwice) 0x10000000).1
  have hbad : ∃ d ∈ r.dst[0]?, r.ctx.minWeight ≤ d.dst.weight ∧
      ¬ share 0 (r.dst.map RouterDst.map) 0 = d.dst.weight / totalWeight r := by decide +kernel
  obtain ⟨d, hd, hw, hne⟩ := hbad
  exact hne (hp (by decide +kernel) 0 d hd hw)

end Glb.Proofs.MapShare
