import Glb.Proofs.RouterRun

namespace Glb.Proofs.TopDst
open RouterFrame RouterRun Lib.Run

variable {cnf : Cnf} {r r' : Router} {d : RouterDst} {i : Nat} {now : Int}

theorem epsilon_pos : 0 < glbDblEpsilon := by norm_num [glbDblEpsilon]

theorem factor_gt_one : 1 < redoTopFactor := by
  have := epsilon_pos
  unfold redoTopFactor
  linarith

theorem lt_mul_factor (hm : 0 < m) : m < m * redoTopFactor := by
  have := mul_lt_mul_of_pos_left factor_gt_one hm
  linarith

theorem mul_factor_le (h : m ≤ m') : m * redoTopFactor ≤ m' * redoTopFactor :=
  mul_le_mul_of_nonneg_right h (by linarith [factor_gt_one])

/-- The scan raises its own threshold, so every destination that may be chosen
ends up below the final one, and the final one is either the one it started
with or the weight of such a destination. -/
theorem redo_top_loop_spec (now retry : Int) (ds : List RouterDst) (i : Nat) (top : Option Nat)
    (m : ℚ) (hm : 0 < m) :
    m ≤ (redoTopLoop now retry ds i (top, m)).2 ∧
    (∀ d ∈ ds, routerDstIsGoodBase d now retry = true →
      d.dst.weight < (redoTopLoop now retry ds i (top, m)).2 * redoTopFactor) ∧
    (redoTopLoop now retry ds i (top, m) = (top, m) ∨
      ∃ j d, ds[j]? = some d ∧ routerDstIsGoodBase d now retry = true ∧
        m * redoTopFactor ≤ d.dst.weight ∧
        redoTopLoop now retry ds i (top, m) = (some (i + j), d.dst.weight)) := by
  induction ds generalizing i top m with
  | nil => exact ⟨le_refl m, by simp, Or.inl rfl⟩
  | cons d ds ih =>
    by_cases hg : routerDstIsGood d (m * redoTopFactor) now retry = true
    · have hw : m * redoTopFactor ≤ d.dst.weight ∧ routerDstIsGoodBase d now retry = true := by
        simpa [routerDstIsGood] using hg
      have hd : 0 < d.dst.weight := by linarith [hw.1, lt_mul_factor hm]
      obtain ⟨hle, hall, hres⟩ := ih (i + 1) (some i) d.dst.weight hd
      simp only [redoTopLoop, hg, ↓reduceIte]
      refine ⟨by linarith [hw.1, lt_mul_factor hm], ?_, Or.inr ?_⟩
      · intro e he hb
        rcases List.mem_cons.mp he with rfl | he
        · linarith [lt_mul_factor hd, mul_factor_le hle]
        · exact hall e he hb
      · rcases hres with hres | ⟨j, e, he, hb, hwe, hres⟩
        · exact ⟨0, d, rfl, hw.2, hw.1, by simpa using hres⟩
        · exact ⟨j + 1, e, by simpa using he, hb, by linarith [hw.1, lt_mul_factor hd],
            by rw [hres, Nat.add_assoc, Nat.add_comm 1 j]⟩
    · obtain ⟨hle, hall, hres⟩ := ih (i + 1) top m hm
      simp only [redoTopLoop, hg, ↓reduceIte, Bool.false_eq_true]
      refine ⟨hle, ?_, ?_⟩
      · intro e he hb
        rcases List.mem_cons.mp he with rfl | he
        · have hlt : e.dst.weight < m * redoTopFactor := by
            by_contra hc
            exact hg (by simpa [routerDstIsGood, hb] using hc)
          linarith [mul_factor_le hle]
        · exact hall e he hb
      · rcases hres with hres | ⟨j, e, he, hb, hwe, hres⟩
        · exact Or.inl hres
        · exact Or.inr ⟨j + 1, e, by simpa using he, hb, hwe,
            by rw [hres, Nat.add_assoc, Nat.add_comm 1 j]⟩

/-- The weight of the top destination, its failed mark disregarded. -/
def topWeight (r : Router) : ℚ :=
  match r.top with
  | none => glbDblEpsilon
  | some d => max glbDblEpsilon d.dst.weight

theorem epsilon_le_min (r : Router) : glbDblEpsilon ≤ routerMinWeight r := by
  unfold routerMinWeight routerTopDstIsGood
  cases r.top with
  | none => exact le_refl _
  | some d =>
    simp only
    split
    · rename_i h
      simp only [ge_iff_le, Bool.and_eq_true, decide_eq_true_eq] at h
      exact h.1
    · exact le_refl _

theorem min_weight_pos (hm : r.ctx.minWeight = routerMinWeight r) : 0 < r.ctx.minWeight := by
  rw [hm]
  exact lt_of_lt_of_le epsilon_pos (epsilon_le_min r)

theorem min_le_top_weight (r : Router) : routerMinWeight r ≤ topWeight r := by
  unfold routerMinWeight topWeight
  cases r.top with
  | none => exact le_refl _
  | some d =>
    simp only
    split
    · exact le_max_right _ _
    · exact le_max_left _ _

/-- Outside its retry window the top destination sets the minimal weight. -/
theorem min_eq_top_weight (r : Router)
    (h : ∀ d, r.top = some d → routerDstIsGoodBase d r.ctx.now r.ctx.retry = true) :
    routerMinWeight r = topWeight r := by
  unfold routerMinWeight topWeight routerTopDstIsGood
  cases ht : r.top with
  | none => rfl
  | some d =>
    simp only [h d ht, Bool.and_true, decide_eq_true_eq, ge_iff_le]
    split
    · rename_i hw
      exact (max_eq_right hw).symm
    · rename_i hw
      exact (max_eq_left (le_of_not_ge hw)).symm

/-- What one recomputation does to the top destination and the minimal weight,
given that the minimal weight was up to date before. -/
structure Redone (r r' : Router) : Prop where
  raised : r.ctx.minWeight ≤ r'.ctx.minWeight
  minWeight : r'.ctx.minWeight = routerMinWeight r'
  above : ∀ d ∈ r'.dst, routerDstIsGoodBase d r'.ctx.now r'.ctx.retry = true →
    d.dst.weight < r'.ctx.minWeight * redoTopFactor
  kept : (r'.topDst = r.topDst ∧ r'.ctx.minWeight = r.ctx.minWeight) ∨
    ∃ d, r'.top = some d ∧ routerDstIsGoodBase d r'.ctx.now r'.ctx.retry = true

theorem redo_top_spec (r : Router) (hm : r.ctx.minWeight = routerMinWeight r) :
    Redone r (routerRedoTop r) := by
  have hpos := min_weight_pos hm
  obtain ⟨hraise, hall, hres⟩ :=
    redo_top_loop_spec r.ctx.now r.ctx.retry r.dst 0 r.topDst r.ctx.minWeight hpos
  rcases hres with hres | ⟨j, d, hd, hb, hw, hres⟩
  · have hr : routerRedoTop r = r := by simp [routerRedoTop, hres]
    rw [hr]
    rw [hres] at hall
    exact ⟨le_refl _, hm, hall, Or.inl ⟨rfl, rfl⟩⟩
  · have htop : (routerRedoTop r).top = some d := by
      simp [routerRedoTop, hres, Router.top, hd]
    have hmin : (routerRedoTop r).ctx.minWeight = d.dst.weight := by simp [routerRedoTop, hres]
    have heps : glbDblEpsilon ≤ d.dst.weight := by
      have := epsilon_le_min r
      rw [← hm] at this
      linarith [lt_mul_factor hpos]
    refine ⟨hraise, ?_, ?_, Or.inr ⟨d, htop, hb⟩⟩
    · simp only [routerMinWeight, routerTopDstIsGood, htop]
      have hb' : routerDstIsGoodBase d (routerRedoTop r).ctx.now (routerRedoTop r).ctx.retry = true :=
        hb
      simp [heps, hb', hmin]
    · rw [hres] at hall
      rw [hmin]
      exact hall

/-- Some destination outside its retry window weighs at least `w`. -/
def Offered (r : Router) (w : ℚ) : Prop :=
  ∃ d ∈ r.dst, routerDstIsGood d w r.ctx.now r.ctx.retry = true

theorem top_good (ht : r.top = some d) : routerTopDstIsGood r = true ↔
    glbDblEpsilon ≤ d.dst.weight ∧ routerDstIsGoodBase d r.ctx.now r.ctx.retry = true := by
  simp [routerTopDstIsGood, ht]

theorem min_good (ht : r.top = some d) (hg : routerTopDstIsGood r = true) :
    routerMinWeight r = d.dst.weight := by
  simp [routerMinWeight, ht, hg]

theorem min_bad (hg : routerTopDstIsGood r = false) : routerMinWeight r = glbDblEpsilon := by
  unfold routerMinWeight
  cases r.top with
  | none => rfl
  | some d => simp [hg]

/-- What the scan leaves: no destination on offer is heavier than the minimal weight
by the factor, and `top_dst` moves only to one that was. -/
theorem redo_top_moves (hm : r.ctx.minWeight = routerMinWeight r) :
    ¬ Offered (routerRedoTop r) ((routerRedoTop r).ctx.minWeight * redoTopFactor) ∧
      ((routerRedoTop r = r) ∨ ∃ j d, r.dst[j]? = some d ∧
        routerDstIsGood d (r.ctx.minWeight * redoTopFactor) r.ctx.now r.ctx.retry = true ∧
        (routerRedoTop r).topDst = some j ∧ (routerRedoTop r).ctx.minWeight = d.dst.weight) := by
  have hpos := min_weight_pos hm
  refine ⟨?_, ?_⟩
  · rintro ⟨d, hd, hg⟩
    rw [good_iff] at hg
    exact absurd hg.1 (not_le.mpr ((redo_top_spec r hm).above d hd hg.2))
  · obtain ⟨_, _, hres⟩ :=
      redo_top_loop_spec r.ctx.now r.ctx.retry r.dst 0 r.topDst r.ctx.minWeight hpos
    rcases hres with hres | ⟨j, d, hd, hb, hw, hres⟩
    · exact Or.inl (by simp [routerRedoTop, hres])
    · exact Or.inr ⟨j, d, hd, by simp [routerDstIsGood, hb, hw], by simp [routerRedoTop, hres]⟩

/-- The scan cannot end on the destination it started from: what it moves to is
heavier than that one by the factor, or good where that one is not. -/
theorem moved_off (hd : r.dst[j]? = some d)
    (hg : routerDstIsGood d (r.ctx.minWeight * redoTopFactor) r.ctx.now r.ctx.retry = true)
    (hm : r.ctx.minWeight = routerMinWeight r) : r.topDst ≠ some j := by
  intro hj
  have ht : r.top = some d := by simp [Router.top, hj, hd]
  have heps := epsilon_le_min r
  rw [← hm] at heps
  have hlt := lt_mul_factor (lt_of_lt_of_le epsilon_pos heps)
  rw [good_iff] at hg
  have hgood : routerTopDstIsGood r = true := (top_good ht).mpr ⟨by linarith [hg.1], hg.2⟩
  have hw := min_good ht hgood
  linarith [hg.1]

/-- A good top destination gives way exactly to one that is heavier by the factor,
one that is not good to any that is drained no longer, and what is good in the end
has no heavier one beside it and sets the minimal weight. -/
theorem redo_top_heaviest (hm : r.ctx.minWeight = routerMinWeight r) :
    (∀ t, r.top = some t → routerTopDstIsGood r = true →
      ((routerRedoTop r).topDst = r.topDst ↔ ¬ Offered r (t.dst.weight * (1 + glbDblEpsilon)))) ∧
    (routerTopDstIsGood r = false → Offered r (glbDblEpsilon * (1 + glbDblEpsilon)) →
      (routerRedoTop r).topDst ≠ r.topDst ∧ routerTopDstIsGood (routerRedoTop r) = true) ∧
    (∀ t, (routerRedoTop r).top = some t → routerTopDstIsGood (routerRedoTop r) = true →
      ¬ Offered r (t.dst.weight * (1 + glbDblEpsilon)) ∧
        (routerRedoTop r).ctx.minWeight = t.dst.weight) := by
  obtain ⟨hnone, hmoves⟩ := redo_top_moves hm
  have hmin := (redo_top_spec r hm).minWeight
  refine ⟨?_, ?_, ?_⟩
  · intro t ht hg
    have hw : r.ctx.minWeight = t.dst.weight := hm.trans (min_good ht hg)
    rw [← hw]
    constructor
    · intro hkeep
      rcases hmoves with he | ⟨j, d, hd, hgd, hj, _⟩
      · rw [he] at hnone
        exact hnone
      · exact absurd (hkeep.symm.trans hj) (moved_off hd hgd hm)
    · intro hno
      rcases hmoves with he | ⟨j, d, hd, hgd, _, _⟩
      · rw [he]
      · exact absurd ⟨d, List.mem_of_getElem? hd, hgd⟩ hno
  · intro hg hoff
    have hw : r.ctx.minWeight = glbDblEpsilon := hm.trans (min_bad hg)
    rcases hmoves with he | ⟨j, d, hd, hgd, hj, hmd⟩
    · rw [he, hw] at hnone
      exact absurd hoff hnone
    · refine ⟨fun hkeep => moved_off hd hgd hm (hkeep.symm.trans hj), ?_⟩
      have ht : (routerRedoTop r).top = some d := by
        rw [Router.top, hj]
        exact hd
      rw [top_good ht, ← hmd, hmin]
      rw [good_iff] at hgd
      exact ⟨epsilon_le_min _, hgd.2⟩
  · intro t ht hg
    have hw : (routerRedoTop r).ctx.minWeight = t.dst.weight := hmin.trans (min_good ht hg)
    rw [hw] at hnone
    exact ⟨hnone, hw⟩

/-- A server of weight 1 gives way to one of weight 2. -/
def outweighed : Router :=
  { Router.init with
    ctx := ⟨1, 2, 100⟩
    topDst := some 0
    dst := [routerNewDst ⟨serverA, 1⟩ none 0, routerNewDst ⟨serverB, 2⟩ none 0] }

theorem redo_top_heaviest_outweighed :
    (routerRedoTop outweighed).topDst = some 1 ∧ (routerRedoTop outweighed).ctx.minWeight = 2 ∧
      ¬ Offered outweighed (2 * (1 + glbDblEpsilon)) := by
  have hm : outweighed.ctx.minWeight = routerMinWeight outweighed := by decide +kernel
  have htop : (routerRedoTop outweighed).top = some (routerNewDst ⟨serverB, 2⟩ none 0) := by
    decide +kernel
  obtain ⟨hno, hw⟩ := (redo_top_heaviest hm).2.2 _ htop (by decide +kernel)
  exact ⟨by decide +kernel, hw, hno⟩

/-- No listed destination is heavier than the top one by the factor. -/
def Maximal (r : Router) : Prop := ∀ d ∈ r.dst, d.dst.weight < topWeight r * redoTopFactor

/-- A destination inside its retry window does not count here when it is drained
or when one outside weighs at least as much. -/
def Settled (ds : List RouterDst) (now retry : Int) : Prop :=
  ∀ d ∈ ds, routerDstIsGoodBase d now retry = true ∨ d.dst.weight ≤ glbDblEpsilon ∨
    ∃ g ∈ ds, routerDstIsGoodBase g now retry = true ∧ d.dst.weight ≤ g.dst.weight

theorem Redone.maximal (h : Redone r r') (hs : Settled r'.dst r'.ctx.now r'.ctx.retry) :
    Maximal r' := by
  have hmin : r'.ctx.minWeight ≤ topWeight r' := h.minWeight ▸ min_le_top_weight r'
  intro d hd
  rcases hs d hd with hb | he | ⟨g, hg, hb, hw⟩
  · linarith [h.above d hd hb, mul_factor_le hmin]
  · have heps := epsilon_le_min r'
    rw [← h.minWeight] at heps
    linarith [lt_mul_factor epsilon_pos, mul_factor_le (le_trans heps hmin)]
  · linarith [h.above g hg hb, mul_factor_le hmin]

theorem update_ctx_min (cnf : Cnf) (now : Int) (r : Router) :
    (routerUpdateCtx cnf now r).ctx.minWeight = routerMinWeight (routerUpdateCtx cnf now r) := rfl

/-- A choice is made with an up-to-date minimal weight. -/
theorem prepare_min (cnf : Cnf) (now : Int) (r : Router) :
    (routerPrepare cnf now r).ctx.minWeight = routerMinWeight (routerPrepare cnf now r) := by
  unfold routerPrepare routerExpireTop
  split
  · exact (redo_top_spec _ (update_ctx_min cnf now r)).minWeight
  · exact update_ctx_min cnf now r

/-- A recomputation is scheduled, and not before the mark of some destination
runs out. -/
def TopScheduled (r : Router) : Prop := r.topFailed ≠ 0 ∧ ∃ d ∈ r.dst, r.topFailed ≤ d.failed

/-- `router_choose_dst` at `now` finds the scheduled recomputation due. -/
def TopExpired (cnf : Cnf) (r : Router) (now : Int) : Prop :=
  r.topFailed ≠ 0 ∧ now - r.topFailed > routerRetryInterval cnf

/-- The two shapes of a prepared router. -/
theorem prepare_cases (cnf : Cnf) (now : Int) (r : Router) :
    (cnf.top = true ∧ TopExpired cnf r now ∧ routerPrepare cnf now r =
      { routerRedoTop (routerUpdateCtx cnf now r) with topFailed := 0 }) ∨
    (¬ (cnf.top = true ∧ TopExpired cnf r now) ∧
      routerPrepare cnf now r = routerUpdateCtx cnf now r) := by
  unfold routerPrepare routerExpireTop
  split
  · rename_i hx
    simp only [Bool.and_eq_true, decide_eq_true_eq] at hx
    exact Or.inl ⟨hx.1.1, ⟨hx.1.2, hx.2⟩, rfl⟩
  · rename_i hx
    refine Or.inr ⟨?_, rfl⟩
    rintro ⟨ht, h0, h1⟩
    have hdue : (routerUpdateCtx cnf now r).ctx.now - (routerUpdateCtx cnf now r).topFailed >
        (routerUpdateCtx cnf now r).ctx.retry := h1
    have hset : (routerUpdateCtx cnf now r).topFailed ≠ 0 := h0
    exact hx (by simp [ht, hset, hdue])

/-- Every recomputation sees a settled table, or leaves one scheduled; and no
failure is reported at time zero, which `top_failed` cannot tell from none. -/
def TopOk (cnf : Cnf) (r : Router) : RouterOp → Prop
  | .change env dst probeCtx => ∀ r' ∈ routerEdit env r dst probeCtx,
      Settled r'.dst env.now (routerRetryInterval cnf) ∨ TopScheduled r'
  | .choose env _ => TopExpired cnf r env.now → Settled r.dst env.now (routerRetryInterval cnf)
  | .disconnect now _ failed => failed = true → now ≠ 0
  | .chooseAgain now env _ dst => now ≠ 0 ∧
      (TopExpired cnf (glbRouterDisconnect cnf now r dst true) env.now →
        Settled (glbRouterDisconnect cnf now r dst true).dst env.now (routerRetryInterval cnf))

instance (ds : List RouterDst) (now retry : Int) : Decidable (Settled ds now retry) :=
  inferInstanceAs (Decidable (∀ d ∈ ds, _ ∨ _ ∨ ∃ g ∈ ds, _ ∧ _))

instance (r : Router) : Decidable (TopScheduled r) :=
  inferInstanceAs (Decidable (_ ∧ ∃ d ∈ r.dst, _))

instance (cnf : Cnf) (r : Router) (now : Int) : Decidable (TopExpired cnf r now) :=
  inferInstanceAs (Decidable (_ ∧ _))

instance (cnf : Cnf) (r : Router) : (op : RouterOp) → Decidable (TopOk cnf r op)
  | .change env dst probeCtx =>
    inferInstanceAs (Decidable (∀ r' ∈ routerEdit env r dst probeCtx, _ ∨ _))
  | .choose _ _ => inferInstanceAs (Decidable (_ → _))
  | .disconnect _ _ _ => inferInstanceAs (Decidable (_ → _))
  | .chooseAgain _ _ _ _ => inferInstanceAs (Decidable (_ ∧ (_ → _)))

structure TopKept (r : Router) : Prop where
  kept : Maximal r ∨ TopScheduled r
  order : r.topFailed ≤ r.ctx.now
  clock : 0 ≤ r.ctx.now

theorem top_weight_of_rows (ht : r'.topDst = r.topDst)
    (hd : r'.dst.map RouterDst.dst = r.dst.map RouterDst.dst) : topWeight r' = topWeight r := by
  have htop : r'.top.map RouterDst.dst = r.top.map RouterDst.dst := by
    unfold Router.top
    rw [ht]
    cases r.topDst with
    | none => rfl
    | some i => simp only [Option.bind_some, ← List.getElem?_map, hd]
  unfold topWeight
  cases h1 : r'.top <;> cases h2 : r.top <;> simp_all

theorem maximal_of_rows (ht : r'.topDst = r.topDst)
    (hd : r'.dst.map RouterDst.dst = r.dst.map RouterDst.dst) (hm : Maximal r) : Maximal r' := by
  intro d' hd'
  obtain ⟨d, hdm, he⟩ := mem_of_map_eq hd hd'
  rw [top_weight_of_rows ht hd, ← he]
  exact hm d hdm

theorem alike_dsts (h : Alike r r') : r'.dst.map RouterDst.dst = r.dst.map RouterDst.dst := by
  have := congrArg (List.map Prod.fst) h.rows
  simpa [row, Function.comp_def] using this

theorem alike_kept (h : Alike r r') (hk : TopKept r) : TopKept r' := by
  refine ⟨?_, by rw [h.topFailed, h.ctx]; exact hk.order, by rw [h.ctx]; exact hk.clock⟩
  rcases hk.kept with hm | ⟨hn, d, hd, hle⟩
  · exact Or.inl (maximal_of_rows h.topDst (alike_dsts h) hm)
  · right
    obtain ⟨d', hd', hrow⟩ := h.symm.mem hd
    refine ⟨by rw [h.topFailed]; exact hn, d', hd', ?_⟩
    rw [h.topFailed, (row_eq_iff.mp hrow).2.2]
    exact hle

theorem redo_top_kept (ht : cnf.top = true) (hp : routerUsesMap cnf = false)
    (hs : Settled r.dst now (routerRetryInterval cnf) ∨ TopScheduled r)
    (ho : r.topFailed ≤ now) (hn : 0 ≤ now) : TopKept (routerRedo cnf now r) := by
  simp only [routerRedo, ht, hp, ↓reduceIte, Bool.false_eq_true]
  refine ⟨?_, ho, hn⟩
  rcases hs with hs | hs
  · exact Or.inl ((redo_top_spec _ (update_ctx_min cnf now r)).maximal hs)
  · exact Or.inr hs

theorem prepare_kept (hk : TopKept r) (hc : r.ctx.now ≤ now)
    (hs : TopExpired cnf r now → Settled r.dst now (routerRetryInterval cnf)) :
    TopKept (routerPrepare cnf now r) := by
  have hn : 0 ≤ now := le_trans hk.clock hc
  rcases prepare_cases cnf now r with ⟨_, hx, hp⟩ | ⟨_, hp⟩ <;> rw [hp]
  · exact ⟨Or.inl ((redo_top_spec _ (update_ctx_min cnf now r)).maximal (hs hx)), hn, hn⟩
  · exact ⟨hk.kept, le_trans hk.order hc, hn⟩

/-- A failure report schedules the next recomputation with its own mark, or
moves one mark to a time past the schedule. -/
theorem failed_kept (hp : routerUsesMap cnf = false) (hk : TopKept r) (hc : r.ctx.now ≤ now)
    (hn : now ≠ 0) (i : Nat) : TopKept (routerDstFailed cnf now r i) := by
  have hpos : 0 ≤ now := le_trans hk.clock hc
  have hle : r.topFailed ≤ now := le_trans hk.order hc
  have hstamped : ∀ d, r.dst[i]? = some d → TopKept (stamped cnf now r i) := by
    intro d hd
    refine ⟨?_, hle, hpos⟩
    rcases hk.kept with hm | ⟨h0, _⟩
    · exact Or.inl (maximal_of_rows (r := r) rfl (mark_dsts r.dst i now) hm)
    · exact Or.inr ⟨h0, _, mark_mem r.dst i now hd, hle⟩
  have hf := failed_cases cnf now r i
  generalize routerDstFailed cnf now r i = q at hf ⊢
  cases hf with
  | unlisted _ => exact hk
  | wasBad hd _ => exact hstamped _ hd
  | retops hd _ _ =>
    unfold retopped
    split
    · exact ⟨Or.inr ⟨hn, _, mark_mem r.dst i now hd, le_refl now⟩, le_refl now, hpos⟩
    · exact hstamped _ hd
  | remaps _ _ hu => simp [hp] at hu

theorem step_kept (he : cnf.extra = 0) (ht : cnf.top = true) (hp : routerUsesMap cnf = false) :
    ∀ r op r', TopKept r → (ClockOk r op ∧ TopOk cnf r op) → routerStep cnf r op = some r' →
      TopKept r' := by
  apply step_keeps TopKept (fun r op => ClockOk r op ∧ TopOk cnf r op) he
  · intro r r' h hk
    exact alike_kept h hk
  · intro r env dst ctx r' hk hok hr
    obtain ⟨hctx, htf, _, _⟩ := edit_fields hr
    have hc : r.ctx.now ≤ env.now := hok.1
    exact redo_top_kept ht hp (hok.2 r' hr) (htf ▸ le_trans hk.order hc) (le_trans hk.clock hc)
  · intro r env hint hk hok
    rw [ready_plain hp]
    exact prepare_kept hk hok.1 hok.2
  · intro r now addr i hk hok _
    exact failed_kept hp (alike_kept (count_alike r i (-1)) hk) hok.1 (hok.2 rfl) i
  · intro r now env hint addr hok
    obtain ⟨hd, hc⟩ := clock_again cnf hok.1
    exact ⟨⟨hd, fun _ => hok.2.1⟩, hc, hok.2.2⟩

theorem top_good_min (hm : r.ctx.minWeight = routerMinWeight r) (ht : r.top = some d)
    (hg : routerTopDstIsGood r = true) :
    routerDstIsGood d r.ctx.minWeight r.ctx.now r.ctx.retry = true := by
  have hw : routerMinWeight r = d.dst.weight := by simp [routerMinWeight, ht, hg]
  simp only [routerTopDstIsGood, ht, Bool.and_eq_true] at hg
  simp [routerDstIsGood, hm, hw, hg.2]

/-- The policies that test destinations one by one return only good ones. -/
theorem policy_good (he : cnf.extra = 0) (hp : routerUsesMap cnf = false)
    (hm : r.ctx.minWeight = routerMinWeight r)
    (h : (routerPolicy cnf env r hint).2 = some i) :
    ∃ d, r.dst[i]? = some d ∧ routerDstIsGood d r.ctx.minWeight r.ctx.now r.ctx.retry = true := by
  unfold routerPolicy at h
  cases hc : cnf.policy with
  | least =>
    simp only [hc] at h
    exact (least_spec he).2 i h
  | round =>
    simp only [hc] at h
    exact (round_loop_spec he _ r).2 i h
  | single =>
    simp only [hc, routerChooseDstSingle] at h
    split at h
    · rename_i hg
      cases ht : r.top with
      | none => simp [routerTopDstIsGood, ht] at hg
      | some d =>
        have hd : r.dst[i]? = some d := by simpa [Router.top, h] using ht
        exact ⟨d, hd, top_good_min hm ht hg⟩
    · cases h
  | random => simp [routerUsesMap, hc, Policy.toNat] at hp
  | source => simp [routerUsesMap, hc, Policy.toNat] at hp

/-- What `-T` promises of a choice made when no failed mark is younger than the
retry interval. -/
def TopPromise (cnf : Cnf) (env : ChooseEnv) (r : Router) (hint : UInt32) : Prop :=
  (∀ d ∈ r.dst, routerDstIsGoodBase d env.now (routerRetryInterval cnf) = true) →
  ∀ i, (routerChooseDst cnf env r hint).2 = some i →
    ∃ d, (routerChooseDst cnf env r hint).1.dst[i]? = some d ∧
      ∀ e ∈ (routerChooseDst cnf env r hint).1.dst, e.dst.weight ≤ d.dst.weight * redoTopFactor

/-- If every mark is old then no schedule is left open, and the top destination
is the heaviest there is. -/
theorem kept_maximal (cnf : Cnf) (hk : TopKept r)
    (hold : ∀ d ∈ r.dst, routerDstIsGoodBase d r.ctx.now (routerRetryInterval cnf) = true)
    (hx : ¬ TopExpired cnf r r.ctx.now) : Maximal r := by
  rcases hk.kept with hm | ⟨hn, d, hd, hle⟩
  · exact hm
  · have hb := hold d hd
    rw [good_base_iff] at hb
    exact absurd ⟨hn, by omega⟩ hx

theorem prepare_dst (cnf : Cnf) (now : Int) (r : Router) :
    (routerPrepare cnf now r).dst = r.dst ∧ (routerPrepare cnf now r).ctx.now = now ∧
      (routerPrepare cnf now r).ctx.retry = routerRetryInterval cnf := by
  unfold routerPrepare routerExpireTop
  split <;> exact ⟨rfl, rfl, rfl⟩

/-- `router_dst_is_good` as a choice at `now` finds it, before any probe. -/
def goodAt (cnf : Cnf) (now : Int) (r : Router) (d : RouterDst) : Bool :=
  routerDstIsGood d (routerPrepare cnf now r).ctx.minWeight now (routerRetryInterval cnf)

theorem good_prepared (cnf : Cnf) (now : Int) (r : Router) (d : RouterDst) :
    routerDstIsGood d (routerPrepare cnf now r).ctx.minWeight (routerPrepare cnf now r).ctx.now
      (routerPrepare cnf now r).ctx.retry = goodAt cnf now r d := by
  obtain ⟨_, hnow, hretry⟩ := prepare_dst cnf now r
  rw [goodAt, hnow, hretry]

theorem prepare_not_expired (ht : cnf.top = true) (now : Int) (r : Router) :
    ¬ TopExpired cnf (routerPrepare cnf now r) now := by
  rcases prepare_cases cnf now r with ⟨_, _, hp⟩ | ⟨hx, hp⟩ <;> rw [hp]
  · rintro ⟨h0, _⟩
    exact h0 rfl
  · intro h
    exact hx ⟨ht, h⟩

theorem top_mem (ht : r.top = some d) : d ∈ r.dst := by
  unfold Router.top at ht
  obtain ⟨i, _, hd⟩ := Option.bind_eq_some_iff.mp ht
  exact List.mem_of_getElem? hd

theorem prepare_promise (ht : cnf.top = true) (hk : TopKept (routerPrepare cnf now r))
    (hold : ∀ d ∈ r.dst, routerDstIsGoodBase d now (routerRetryInterval cnf) = true)
    (hd : d ∈ r.dst) :
    d.dst.weight ≤ (routerPrepare cnf now r).ctx.minWeight * redoTopFactor := by
  obtain ⟨hdst, hnow, hretry⟩ := prepare_dst cnf now r
  have hmax : Maximal (routerPrepare cnf now r) := by
    apply kept_maximal cnf hk
    · rw [hdst, hnow]
      exact hold
    · rw [hnow]
      exact prepare_not_expired ht now r
  have hmin : routerMinWeight (routerPrepare cnf now r) = topWeight (routerPrepare cnf now r) := by
    apply min_eq_top_weight
    intro t htop
    rw [hnow, hretry]
    exact hold t (hdst ▸ top_mem htop)
  rw [prepare_min, hmin]
  exact le_of_lt (hmax d (hdst ▸ hd))

theorem init_kept : TopKept Router.init :=
  ⟨Or.inl (by intro d hd; cases hd), le_refl 0, le_refl 0⟩

/-- A run in which every recomputation of the top destination sees a settled
table, or leaves another one scheduled, never forgets a heavier destination. -/
theorem top_not_forgotten (he : cnf.extra = 0) (ht : cnf.top = true)
    (hp : cnf.policy = .least ∨ cnf.policy = .round ∨ cnf.policy = .single)
    (ha : Along (routerStep cnf) (fun r op => ClockOk r op ∧ TopOk cnf r op) Router.init ops)
    (hr : exec (routerStep cnf) Router.init ops = some r)
    (env : ChooseEnv) (hint : UInt32) (hc : ClockOk r (.choose env hint)) :
    TopPromise cnf env r hint := by
  have hmap := plain_policy hp
  have hk : TopKept r := exec_keeps (step_kept he ht hmap) init_kept ha hr
  intro hold i hi
  have hprep : TopKept (routerPrepare cnf env.now r) :=
    prepare_kept hk hc (fun _ d hd => Or.inl (hold d hd))
  have hbound := fun d hd => prepare_promise (d := d) ht hprep hold hd
  have halike : Alike (routerPrepare cnf env.now r) (routerChooseDst cnf env r hint).1 := by
    simpa [routerReady, hmap] using choose_alike he env r hint
  rw [choose_returns] at hi
  obtain ⟨d, hd, hg⟩ := policy_good he hmap (prepare_min cnf env.now r) hi
  obtain ⟨d', hd', hrow⟩ := halike.symm.get hd
  refine ⟨d', hd', ?_⟩
  intro e he'
  obtain ⟨e₀, he₀, hrow₀⟩ := halike.mem he'
  rw [(prepare_dst cnf env.now r).1] at he₀
  have hwd : (routerPrepare cnf env.now r).ctx.minWeight ≤ d'.dst.weight := by
    rw [(row_eq_iff.mp hrow).1]
    rw [good_iff] at hg
    exact hg.1
  rw [← (row_eq_iff.mp hrow₀).1]
  exact le_trans (hbound e₀ he₀) (mul_factor_le hwd)

def singleTop : Cnf where
  policy := .single
  top := true
  interval := 10 ^ 9
  extra := 0
  maxConn := 0
  synchronous := false
  discover := false
  latFactor := 8

/-- The heavier server fails once and is retried two seconds later. -/
def failOnce : List RouterOp :=
  [setAt 100 serverA 2, setAt 100 serverB 1, .choose (chooseAt 100) 0,
    .disconnect 101 serverA true, .choose (chooseAt 102) 0]

theorem top_not_forgotten_fail_once :
    TopPromise singleTop (chooseAt 103) (reached singleTop failOnce) 0 ∧
      (routerChooseDst singleTop (chooseAt 103) (reached singleTop failOnce) 0).2 = some 0 := by
  have ha : Along (routerStep singleTop) (fun r op => ClockOk r op ∧ TopOk singleTop r op)
      Router.init failOnce := by decide +kernel
  refine ⟨top_not_forgotten rfl rfl (by simp [singleTop]) ha ?_ _ _ ?_, ?_⟩
  all_goals decide +kernel

/-- Two connections to the heavier server fail in different seconds. The only
scheduled recomputation comes while the second mark is still fresh. -/
def failTwice : List RouterOp :=
  [setAt 100 serverA 2, setAt 100 serverB 1, .choose (chooseAt 100) 0, .choose (chooseAt 100) 0,
    .disconnect 101 serverA true, .disconnect 102 serverA true, .choose (chooseAt 103) 0]

theorem top_forgotten_fail_twice :
    Along (routerStep singleTop) ClockOk Router.init failTwice ∧
    exec (routerStep singleTop) Router.init failTwice = some (reached singleTop failTwice) ∧
    ClockOk (reached singleTop failTwice) (.choose (chooseAt 104) 0) ∧
    ¬ TopPromise singleTop (chooseAt 104) (reached singleTop failTwice) 0 := by
  refine ⟨by decide +kernel, by decide +kernel, by decide +kernel, ?_⟩
  intro hp
  obtain ⟨d, hd, hall⟩ := hp (by decide +kernel) 1 (by decide +kernel)
  have hbad : ∀ d ∈ (routerChooseDst singleTop (chooseAt 104) (reached singleTop failTwice) 0).1.dst[1]?,
      ∃ e ∈ (routerChooseDst singleTop (chooseAt 104) (reached singleTop failTwice) 0).1.dst,
        ¬ e.dst.weight ≤ d.dst.weight * redoTopFactor := by decide +kernel
  obtain ⟨e, he, hlt⟩ := hbad d hd
  exact hlt (hall e he)

end Glb.Proofs.TopDst
