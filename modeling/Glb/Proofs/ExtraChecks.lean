import Glb.Proofs.RouterCore
import Glb.Proofs.Selection

namespace Glb.Proofs.ExtraChecks
open Lib.Run Lib.Share RouterFrame RouterCore RouterRun TopDst MapShare Selection

variable {cnf : Cnf} {env : ChooseEnv} {r q : Router} {d : RouterDst} {i n : Nat} {hint : UInt32}

/-- What the extra check of the destination at index `i` says. -/
def passes (cnf : Cnf) (env : ChooseEnv) (i : Nat) (d : RouterDst) : Bool :=
  (routerDstCheck d cnf.extra (env.check i)).2

section condition
variable (cnf : Cnf) (env : ChooseEnv) (r : Router)

/-- Every good destination fails its check. -/
def NoneLeft : Prop :=
  ∀ x ∈ r.dst.zipIdx, goodAt cnf env.now r x.1 = true → passes cnf env x.2 x.1 = false

/-- A destination returned is good and passes its check, and nothing is returned only
if every good destination fails. -/
def Right : Option Nat → Prop
  | some i => ∃ d ∈ r.dst[i]?, goodAt cnf env.now r d = true ∧ passes cnf env i d = true
  | none => NoneLeft cnf env r

def FailsOver (hint : UInt32) : Prop := Right cnf env r (routerChooseDst cnf env r hint).2

/-- The first of the good destinations with the highest usage passes its check. -/
def BestPasses : Prop :=
  ∃ x ∈ r.dst.zipIdx, goodAt cnf env.now r x.1 = true ∧ passes cnf env x.2 x.1 = true ∧ 0 < x.1.usage ∧
    ∀ y ∈ r.dst.zipIdx, goodAt cnf env.now r y.1 = true →
      y.1.usage ≤ x.1.usage ∧ (y.2 < x.2 → y.1.usage < x.1.usage)

/-- What a destination adds to the total. -/
def part (d : RouterDst) : ℚ := if goodAt cnf env.now r d then d.dst.weight else 0

/-- The good weight up to and including index `i` reaches past the point `m`. -/
def Behind (m : ℚ) (i : Nat) : Prop :=
  m * (r.dst.map (part cnf env r)).sum < ((r.dst.take (i + 1)).map (part cnf env r)).sum ∨
    (r.dst.map (part cnf env r)).sum = 0 ∧ m < 0

/-- Somebody behind the point and before index `n` is good and passes. -/
def FoundBehind (m : ℚ) (n : Nat) : Prop :=
  ∃ x ∈ r.dst.zipIdx, x.2 < n ∧ Behind cnf env r m x.2 ∧ goodAt cnf env.now r x.1 = true ∧
    passes cnf env x.2 x.1 = true

/-- Behind the point nobody who passes without being good comes before everybody who
is good and passes, and if anybody is good and passes, then somebody behind the point. -/
def BehindPasses (m : ℚ) : Prop :=
  (∀ x ∈ r.dst.zipIdx, Behind cnf env r m x.2 → passes cnf env x.2 x.1 = true →
    goodAt cnf env.now r x.1 = false → FoundBehind cnf env r m x.2) ∧
  (NoneLeft cnf env r ∨ FoundBehind cnf env r m r.dst.length)

def ExtraOk (hint : UInt32) : Prop :=
  match cnf.policy with
  | .least => NoneLeft cnf env r ∨ BestPasses cnf env r
  | .round => NoneLeft cnf env r ∨ r.rrbNext < r.dst.length
  | .single => True
  | .random => BehindPasses cnf env r (hintPoint (routerRandomHint env.rand))
  | .source => BehindPasses cnf env r (hintPoint hint)

/-- The map is what a rebuild at the time of the choice gives. -/
def FreshMap (now : Int) : Prop :=
  (routerRedoMap (routerReady cnf (routerPrepare cnf now r))).dst =
    (routerReady cnf (routerPrepare cnf now r)).dst

instance : Decidable (NoneLeft cnf env r) :=
  inferInstanceAs (Decidable (∀ x ∈ r.dst.zipIdx, _ → _))

instance : (ret : Option Nat) → Decidable (Right cnf env r ret)
  | some i => inferInstanceAs (Decidable (∃ d ∈ r.dst[i]?, _ ∧ _))
  | none => inferInstanceAs (Decidable (NoneLeft cnf env r))

instance (hint : UInt32) : Decidable (FailsOver cnf env r hint) := inferInstanceAs (Decidable (Right _ _ _ _))

instance (m : ℚ) (i : Nat) : Decidable (Behind cnf env r m i) := inferInstanceAs (Decidable (_ ∨ _ ∧ _))

instance (m : ℚ) (n : Nat) : Decidable (FoundBehind cnf env r m n) :=
  inferInstanceAs (Decidable (∃ x ∈ r.dst.zipIdx, _ ∧ _ ∧ _ ∧ _))

instance (m : ℚ) : Decidable (BehindPasses cnf env r m) :=
  inferInstanceAs (Decidable ((∀ x ∈ r.dst.zipIdx, _ → _ → _ → _) ∧ (_ ∨ _)))

instance (now : Int) : Decidable (FreshMap cnf r now) := inferInstanceAs (Decidable (_ = _))

end condition

theorem passes_congr {e : RouterDst} (h1 : e.probeCtx = d.probeCtx) (h2 : e.checked = d.checked)
    (i : Nat) : passes cnf env i e = passes cnf env i d := by
  unfold passes routerDstCheck routerDstProbe
  rw [h1, h2]
  split
  · rfl
  · split <;> rfl

theorem stem_passes (h : stem d = stem d') (i : Nat) : passes cnf env i d = passes cnf env i d' :=
  passes_congr (e := d) (d := d') (congrArg RouterDst.probeCtx h :) (congrArg RouterDst.checked h :) i

theorem prepare_next (cnf : Cnf) (now : Int) (r : Router) :
    (routerPrepare cnf now r).rrbNext = r.rrbNext := by
  unfold routerPrepare routerExpireTop
  split <;> rfl

theorem check_passes (hd : r.dst[i]? = some d) : (r.checkAt cnf env i).2 = passes cnf env i d := by
  simp [Router.checkAt, hd, passes]

theorem check_fields (cnf : Cnf) (env : ChooseEnv) (r : Router) (i : Nat) :
    (r.checkAt cnf env i).1.ctx = r.ctx ∧ (r.checkAt cnf env i).1.rrbNext = r.rrbNext := by
  unfold Router.checkAt
  cases r.dst[i]? <;> exact ⟨rfl, rfl⟩

/-- A check touches one destination. -/
theorem check_elsewhere (hij : i ≠ j) : (r.checkAt cnf env i).1.dst[j]? = r.dst[j]? := by
  unfold Router.checkAt
  cases r.dst[i]? with
  | none => rfl
  | some d => simp [hij]

section least

/-- The first good destination with the highest usage. -/
structure Best (ctx : RouterCtx) (ds : List RouterDst) (k : Nat) (d : RouterDst) : Prop where
  listed : ds[k]? = some d
  good : routerDstIsGood d ctx.minWeight ctx.now ctx.retry = true
  above : ∀ (l : Nat) (e : RouterDst), ds[l]? = some e →
    routerDstIsGood e ctx.minWeight ctx.now ctx.retry = true →
      e.usage ≤ d.usage ∧ (l < k → e.usage < d.usage)

theorem Best.cons (h : Best ctx ds k d)
    (hx : routerDstIsGood x ctx.minWeight ctx.now ctx.retry = true → x.usage < d.usage) :
    Best ctx (x :: ds) (k + 1) d := by
  refine ⟨h.listed, h.good, ?_⟩
  intro l e he hg
  cases l with
  | zero =>
    simp only [List.getElem?_cons_zero, Option.some.injEq] at he
    subst he
    exact ⟨le_of_lt (hx hg), fun _ => hx hg⟩
  | succ l =>
    obtain ⟨hle, hlt⟩ := h.above l e he hg
    exact ⟨hle, fun hl => hlt (by omega)⟩

theorem Best.unique (h : Best ctx ds k d) (h' : Best ctx ds k' d') : k = k' := by
  have h1 := h.above k' d' h'.listed h'.good
  have h2 := h'.above k d h.listed h.good
  rcases Nat.lt_trichotomy k k' with hlt | he | hlt
  · exact absurd (h2.2 hlt) (not_lt.mpr h1.1)
  · exact he
  · exact absurd (h1.2 hlt) (not_lt.mpr h2.1)

theorem least_loop_best (ctx : RouterCtx) (ds : List RouterDst) (j : Nat) (ret : Option Nat) (m : ℚ) :
    (leastLoop ctx ds j (ret, m) = (ret, m) ∧
      ∀ e ∈ ds, routerDstIsGood e ctx.minWeight ctx.now ctx.retry = true → e.usage ≤ m) ∨
    ∃ k d, Best ctx ds k d ∧ m < d.usage ∧ leastLoop ctx ds j (ret, m) = (some (j + k), d.usage) := by
  induction ds generalizing j ret m with
  | nil => exact Or.inl ⟨rfl, by simp⟩
  | cons x ds ih =>
    by_cases hx : x.usage > m && routerDstIsGood x ctx.minWeight ctx.now ctx.retry
    · simp only [leastLoop, hx, ↓reduceIte]
      simp only [gt_iff_lt, Bool.and_eq_true, decide_eq_true_eq] at hx
      right
      rcases ih (j + 1) (some j) x.usage with ⟨hres, hall⟩ | ⟨k, d, hb, hm, hres⟩
      · refine ⟨0, x, ⟨rfl, hx.2, ?_⟩, hx.1, hres⟩
        intro l e he hg
        refine ⟨?_, by omega⟩
        rcases List.mem_cons.mp (List.mem_of_getElem? he) with rfl | hmem
        · exact le_refl _
        · exact hall e hmem hg
      · refine ⟨k + 1, d, hb.cons (fun _ => hm), lt_trans hx.1 hm, ?_⟩
        rw [hres, Nat.add_assoc, Nat.add_comm 1 k]
    · simp only [leastLoop, hx, Bool.false_eq_true, ↓reduceIte]
      have hlow : routerDstIsGood x ctx.minWeight ctx.now ctx.retry = true → x.usage ≤ m := by
        intro hg
        by_contra hlt
        exact hx (by simp [hg, not_le.mp hlt])
      rcases ih (j + 1) ret m with ⟨hres, hall⟩ | ⟨k, d, hb, hm, hres⟩
      · refine Or.inl ⟨hres, ?_⟩
        intro e he hg
        rcases List.mem_cons.mp he with rfl | he
        · exact hlow hg
        · exact hall e he hg
      · refine Or.inr ⟨k + 1, d, hb.cons (fun hg => lt_of_le_of_lt (hlow hg) hm), hm, ?_⟩
        rw [hres, Nat.add_assoc, Nat.add_comm 1 k]

/-- `BestPasses` speaks about the destination that the scan ends at. -/
theorem best_passes_iff :
    BestPasses cnf env r ↔ ∃ k d, Best (routerPrepare cnf env.now r).ctx r.dst k d ∧ 0 < d.usage ∧
      passes cnf env k d = true := by
  constructor
  · rintro ⟨⟨d, k⟩, hd, hg, hpass, hu, hall⟩
    refine ⟨k, d, ⟨List.mem_zipIdx_iff_getElem?.mp hd, (good_prepared cnf env.now r d).trans hg, ?_⟩,
      hu, hpass⟩
    intro l e he hge
    exact hall (e, l) (List.mem_zipIdx_iff_getElem?.mpr he) ((good_prepared cnf env.now r e).symm.trans hge)
  · rintro ⟨k, d, hb, hu, hpass⟩
    refine ⟨(d, k), List.mem_zipIdx_iff_getElem?.mpr hb.listed,
      (good_prepared cnf env.now r d).symm.trans hb.good, hpass, hu, ?_⟩
    rintro ⟨e, l⟩ he hge
    exact hb.above l e (List.mem_zipIdx_iff_getElem?.mp he) ((good_prepared cnf env.now r e).trans hge)

theorem least_right : Right cnf env r (routerChooseDstLeast cnf env (routerPrepare cnf env.now r)).2 ↔
    NoneLeft cnf env r ∨ BestPasses cnf env r := by
  have hdst := (prepare_dst cnf env.now r).1
  rw [best_passes_iff]
  unfold routerChooseDstLeast
  rcases least_loop_best (routerPrepare cnf env.now r).ctx (routerPrepare cnf env.now r).dst 0 none 0 with
    ⟨hres, hall⟩ | ⟨k, d, hb, hu, hres⟩
  · simp only [hres]
    refine (or_iff_left ?_).symm
    rintro ⟨k, d, hb, hu, _⟩
    exact absurd (hall d (hdst ▸ List.mem_of_getElem? hb.listed) hb.good) (not_le.mpr hu)
  · simp only [hres, Nat.zero_add, check_passes hb.listed]
    rw [hdst] at hb
    by_cases hpass : passes cnf env k d = true
    · have hgood := (good_prepared cnf env.now r d).symm.trans hb.good
      simp only [hpass, ↓reduceIte]
      exact iff_of_true ⟨d, hb.listed, hgood, hpass⟩ (Or.inr ⟨k, d, hb, hu, hpass⟩)
    · simp only [hpass, Bool.false_eq_true, ↓reduceIte]
      refine (or_iff_left ?_).symm
      rintro ⟨k', d', hb', _, hpass'⟩
      obtain rfl := hb.unique hb'
      obtain rfl := Option.some.inj (hb.listed.symm.trans hb'.listed)
      exact hpass hpass'

end least

section round

theorem add_mod_ne (hi : i < n) (hk : k + 1 < n) : (i + 1 + k) % n ≠ i := by
  rcases Nat.lt_or_ge (i + 1 + k) n with h | h
  · rw [Nat.mod_eq_of_lt h]
    omega
  · rw [Nat.mod_eq_sub_mod h, Nat.mod_eq_of_lt (by omega)]
    omega

/-- The destination `k` places after the cursor is good by the context. -/
def GoodAfter (q : Router) (k i : Nat) (d : RouterDst) : Prop :=
  i = (q.rrbNext + k) % q.dst.length ∧ q.dst[i]? = some d ∧
    routerDstIsGood d q.ctx.minWeight q.ctx.now q.ctx.retry = true

/-- The result of the loop as far as the next `n` destinations are concerned. -/
def RoundRight (cnf : Cnf) (env : ChooseEnv) (n : Nat) (q : Router) : Option Nat → Prop
  | some i => ∃ k < n, ∃ d, GoodAfter q k i d ∧ passes cnf env i d = true
  | none => ∀ k < n, ∀ i d, GoodAfter q k i d → passes cnf env i d = false

/-- The rest of the loop works on a table that differs at most at the place it has
passed. -/
theorem round_right_next (q' : Router) (hn : n < q.dst.length) (hc : q.rrbNext < q.dst.length)
    (hlen : q'.dst.length = q.dst.length) (hctx : q'.ctx = q.ctx)
    (hnext : q'.rrbNext = (q.rrbNext + 1) % q.dst.length)
    (hget : ∀ j : Nat, q.rrbNext ≠ j → q'.dst[j]? = q.dst[j]?)
    (hfail : ∀ d, GoodAfter q 0 q.rrbNext d → passes cnf env q.rrbNext d = false)
    (h : RoundRight cnf env n q' ret) : RoundRight cnf env (n + 1) q ret := by
  have hplace : ∀ k < n, ∀ i d, GoodAfter q' k i d ↔ GoodAfter q (k + 1) i d := by
    intro k hk i d
    have hi : (q'.rrbNext + k) % q'.dst.length = (q.rrbNext + (k + 1)) % q.dst.length := by
      rw [hnext, hlen, Nat.mod_add_mod, Nat.add_assoc, Nat.add_comm 1 k]
    unfold GoodAfter
    rw [hi, hctx]
    refine and_congr_right (fun he => ?_)
    have hne : q.rrbNext ≠ i := by
      rw [he, ← Nat.add_assoc, Nat.add_right_comm]
      exact (add_mod_ne hc (by omega)).symm
    rw [hget i hne]
  cases ret with
  | some i =>
    obtain ⟨k, hk, d, hg, hp⟩ := h
    exact ⟨k + 1, by omega, d, (hplace k hk i d).mp hg, hp⟩
  | none =>
    intro k hk i d hg
    cases k with
    | zero =>
      have hi : i = q.rrbNext := hg.1.trans (Nat.mod_eq_of_lt hc)
      subst hi
      exact hfail d hg
    | succ k =>
      have hk' : k < n := by omega
      exact h k hk' i d ((hplace k hk' i d).mpr hg)

theorem round_loop_right (cnf : Cnf) (env : ChooseEnv) (n : Nat) (q : Router) (hn : n ≤ q.dst.length) (hc : q.rrbNext < q.dst.length) :
    RoundRight cnf env n q (roundLoop cnf env n q).2 := by
  induction n generalizing q with
  | zero => simp [roundLoop, RoundRight]
  | succ n ih =>
    have hd : q.dst[q.rrbNext]? = some q.dst[q.rrbNext] := List.getElem?_eq_getElem hc
    have hself : q.rrbNext = (q.rrbNext + 0) % q.dst.length := (Nat.mod_eq_of_lt hc).symm
    let q0 := { q with rrbNext := (q.rrbNext + 1) % q.dst.length }
    have hcur : (q.rrbNext + 1) % q.dst.length < q.dst.length := Nat.mod_lt _ (by omega)
    have hd0 : q0.dst[q.rrbNext]? = some q.dst[q.rrbNext] := hd
    simp only [roundLoop, hd]
    split
    · rename_i hg
      have hsame := check_same cnf env q0 q.rrbNext
      split
      · rename_i hok
        exact ⟨0, by omega, _, ⟨hself, hd, hg⟩, (check_passes hd0).symm.trans hok⟩
      · rename_i hok
        obtain ⟨hctx, hnext⟩ := check_fields cnf env q0 q.rrbNext
        have hrest := ih (q0.checkAt cnf env q.rrbNext).1 (hsame.length ▸ Nat.le_of_succ_le hn)
          (by rw [hsame.length, hnext]; exact hcur)
        refine round_right_next _ hn hc hsame.length hctx hnext (fun _ hj => check_elsewhere hj) ?_ hrest
        rintro d ⟨_, hget, _⟩
        obtain rfl := Option.some.inj (hd.symm.trans hget)
        exact (check_passes hd0).symm.trans (by simpa using hok)
    · rename_i hg
      have hrest := ih q0 (Nat.le_of_succ_le hn) hcur
      refine round_right_next q0 hn hc rfl rfl rfl (fun _ _ => rfl) ?_ hrest
      rintro d ⟨_, hget, hgood⟩
      obtain rfl := Option.some.inj (hd.symm.trans hget)
      exact absurd hgood hg

/-- Round robin comes past everybody, so it finds whoever is left. -/
theorem round_right : Right cnf env r (routerChooseDstRound cnf env (routerPrepare cnf env.now r)).2 ↔
    NoneLeft cnf env r ∨ r.rrbNext < r.dst.length := by
  have hdst := (prepare_dst cnf env.now r).1
  have hnext := prepare_next cnf env.now r
  unfold routerChooseDstRound
  by_cases hc : r.rrbNext < r.dst.length
  · refine iff_of_true ?_ (Or.inr hc)
    have hloop := round_loop_right cnf env _ (routerPrepare cnf env.now r) (le_refl _)
      (by rw [hdst, hnext]; exact hc)
    revert hloop
    cases (roundLoop cnf env (routerPrepare cnf env.now r).dst.length (routerPrepare cnf env.now r)).2 with
    | some i =>
      rintro ⟨k, _, d, ⟨_, hget, hg⟩, hpass⟩
      exact ⟨d, hdst ▸ hget, (good_prepared cnf env.now r d).symm.trans hg, hpass⟩
    | none =>
      rintro hall ⟨d, i⟩ hd hg
      have hget := List.mem_zipIdx_iff_getElem?.mp hd
      have hi : i < r.dst.length := (List.getElem?_eq_some_iff.mp hget).1
      -- how far the destination is from the cursor
      refine hall ((i + r.dst.length - r.rrbNext) % r.dst.length) ?_ i d ⟨?_, ?_, ?_⟩
      · rw [hdst]
        exact Nat.mod_lt _ (by omega)
      · rw [hdst, hnext, Nat.add_mod_mod, Nat.add_sub_cancel' (by omega), Nat.add_mod_right,
          Nat.mod_eq_of_lt hi]
      · rw [hdst]
        exact hget
      · exact (good_prepared cnf env.now r d).trans hg
  · rw [or_iff_left hc]
    have hnone : (roundLoop cnf env (routerPrepare cnf env.now r).dst.length
        (routerPrepare cnf env.now r)).2 = none := by
      rw [hdst]
      cases hl : r.dst.length with
      | zero => rfl
      | succ n =>
        have hget : (routerPrepare cnf env.now r).dst[(routerPrepare cnf env.now r).rrbNext]? = none := by
          rw [hdst, hnext]
          exact List.getElem?_eq_none (by omega)
        simp [roundLoop, hget]
    rw [hnone]
    exact Iff.rfl

end round

section map

/-- The first index from `i` on at which `P` holds. -/
def FirstFrom (P : Nat → RouterDst → Prop) (ds : List RouterDst) (i : Nat) : Option Nat → Prop
  | some j => ∃ d, i ≤ j ∧ ds[j]? = some d ∧ P j d ∧ ∀ k e, i ≤ k → k < j → ds[k]? = some e → ¬ P k e
  | none => ∀ k e, i ≤ k → ds[k]? = some e → ¬ P k e

theorem FirstFrom.later (hi : ∀ e : RouterDst, ds[i]? = some e → ¬ P i e)
    (hget : ∀ k : Nat, i + 1 ≤ k → ds'[k]? = ds[k]?) (h : FirstFrom P ds' (i + 1) ret) :
    FirstFrom P ds i ret := by
  have hbefore : ∀ (k : Nat) e, i ≤ k → ds[k]? = some e →
      (i + 1 ≤ k → ds'[k]? = some e → ¬ P k e) → ¬ P k e := by
    intro k e hk he hrest
    rcases Nat.eq_or_lt_of_le hk with rfl | hlt
    · exact hi e he
    · exact hrest hlt (by rw [hget k hlt]; exact he)
  cases ret with
  | some j =>
    obtain ⟨d, hj, hd, hP, hall⟩ := h
    refine ⟨d, by omega, by rw [← hget j hj]; exact hd, hP, ?_⟩
    intro k e hk hkj he
    exact hbefore k e hk he (fun hk' he' => hall k e hk' hkj he')
  | none =>
    intro k e hk he
    exact hbefore k e hk he (fun hk' he' => h k e hk' he')

/-- Two tables whose entries `P` and `Q` do not tell apart. -/
theorem FirstFrom.congr {P Q : Nat → RouterDst → Prop} (hto : ∀ (k : Nat) d, ds'[k]? = some d →
      ∃ e, ds[k]? = some e ∧ (Q k d ↔ P k e))
    (hfrom : ∀ (k : Nat) e, ds[k]? = some e → ∃ d, ds'[k]? = some d ∧ (Q k d ↔ P k e))
    (h : FirstFrom Q ds' i ret) : FirstFrom P ds i ret := by
  have hnot : ∀ (k : Nat) e, ds[k]? = some e → (∀ d, ds'[k]? = some d → ¬ Q k d) → ¬ P k e := by
    intro k e he hall
    obtain ⟨d, hd, hPQ⟩ := hfrom k e he
    exact fun hP => hall d hd (hPQ.mpr hP)
  cases ret with
  | some j =>
    obtain ⟨d, hj, hd, hQ, hall⟩ := h
    obtain ⟨e, he, hPQ⟩ := hto j d hd
    exact ⟨e, hj, he, hPQ.mp hQ, fun k e hk hkj he => hnot k e he (fun d hd => hall k d hk hkj hd)⟩
  | none => exact fun k e hk he => hnot k e he (fun d hd => h k d hk hd)

theorem hint_loop_first (cnf : Cnf) (env : ChooseEnv) (m : ℚ) (n i : Nat) (q : Router)
    (hn : n + i = q.dst.length) :
    FirstFrom (fun j d => m < d.map ∧ passes cnf env j d = true) q.dst i (hintLoop cnf env m n i q).2 := by
  induction n generalizing i q with
  | zero =>
    intro k e hk he
    have hlt := (List.getElem?_eq_some_iff.mp he).1
    omega
  | succ n ih =>
    have hd : q.dst[i]? = some q.dst[i] := List.getElem?_eq_getElem (by omega)
    simp only [hintLoop, hd]
    split
    · rename_i hm
      split
      · rename_i hok
        refine ⟨_, le_refl i, hd, ⟨hm, (check_passes hd).symm.trans hok⟩, ?_⟩
        intro k e hk hki
        omega
      · rename_i hok
        have hlen := (check_same cnf env q i).length
        refine FirstFrom.later ?_ ?_ (ih (i + 1) (q.checkAt cnf env i).1 (by omega))
        · intro e he
          obtain rfl := Option.some.inj (hd.symm.trans he)
          rw [← check_passes hd]
          exact fun h => hok h.2
        · intro k hk
          exact check_elsewhere (by omega)
    · rename_i hm
      refine FirstFrom.later ?_ (fun _ _ => rfl) (ih (i + 1) q (by omega))
      intro e he
      obtain rfl := Option.some.inj (hd.symm.trans he)
      exact fun h => hm h.1

theorem ready_same (cnf : Cnf) (now : Int) (r : Router) :
    SameUpTo stem r (routerReady cnf (routerPrepare cnf now r)) := by
  apply (prepare_same cnf now r).trans
  unfold routerReady
  split
  · exact expire_map_same cnf _
  · exact SameUpTo.refl stem _

theorem ready_weights (cnf : Cnf) (env : ChooseEnv) (r : Router) :
    (routerReady cnf (routerPrepare cnf env.now r)).dst.map
      (goodWeight (routerReady cnf (routerPrepare cnf env.now r)).ctx) = r.dst.map (part cnf env r) := by
  have hw : goodWeight (routerReady cnf (routerPrepare cnf env.now r)).ctx = part cnf env r := by
    funext d
    rw [ready_ctx, goodWeight, good_prepared]
    rfl
  rw [hw]
  exact (ready_same cnf env.now r).map (part cnf env r) (fun d => rfl)

/-- A fresh map ends the piece of index `i` behind the point exactly if the good weight
up to it reaches past the point. -/
theorem fresh_behind (hf : FreshMap cnf r env.now)
    (hd : (routerReady cnf (routerPrepare cnf env.now r)).dst[i]? = some d) (m : ℚ) :
    m < d.map ↔ Behind cnf env r m i := by
  have hpos : 0 < (routerReady cnf (routerPrepare cnf env.now r)).ctx.minWeight := by
    rw [ready_ctx]
    exact lt_of_lt_of_le epsilon_pos (prepare_epsilon cnf env.now r)
  have hweights := ready_weights cnf env r
  have hcuts := redo_map_cuts _ hpos
  have hnonneg : ∀ w ∈ r.dst.map (part cnf env r), 0 ≤ w := by
    intro w hw
    rw [← hweights] at hw
    obtain ⟨e, _, rfl⟩ := List.mem_map.mp hw
    exact good_weight_nonneg _ hpos e
  rw [hf, hweights] at hcuts
  have hi : i < (r.dst.map (part cnf env r)).length := by
    rw [List.length_map, ← (ready_same cnf env.now r).length]
    exact (List.getElem?_eq_some_iff.mp hd).1
  have hmap := cuts_getElem? (r.dst.map (part cnf env r)).sum 0 _ i hi
  rw [← hcuts, List.getElem?_map, hd, Option.map_some, Option.some.injEq, add_zero] at hmap
  rw [hmap, Behind, List.map_take]
  generalize r.dst.map (part cnf env r) = ws at hnonneg
  rcases eq_or_lt_of_le (List.sum_nonneg hnonneg) with h0 | hlt
  · have hz : (ws.take (i + 1)).sum = 0 := by
      apply List.sum_eq_zero
      intro w hw
      exact List.all_zero_of_le_zero_le_of_sum_eq_zero hnonneg h0.symm (List.mem_of_mem_take hw)
    simp [← h0, hz]
  · rw [lt_div_iff₀ hlt]
    simp [hlt.ne']

/-- With a fresh map the policy returns the first destination behind the point that
passes its check, good or not. -/
theorem hint_first (hf : FreshMap cnf r env.now) (hu : routerUsesMap cnf = true) (hint : UInt32) :
    FirstFrom (fun j d => Behind cnf env r (hintPoint hint) j ∧ passes cnf env j d = true) r.dst 0
      (routerChooseDstHint cnf env (routerPrepare cnf env.now r) hint).2 := by
  have hsame := ready_same cnf env.now r
  have hback : SameUpTo stem (routerReady cnf (routerPrepare cnf env.now r)) r :=
    ⟨hsame.dsts.symm, hsame.conns.symm, hsame.busy.symm, hsame.wait.symm⟩
  have hdst := (prepare_dst cnf env.now r).1
  unfold routerChooseDstHint
  split
  · rename_i hl
    rw [hdst] at hl
    intro k e _ he
    have hlt := (List.getElem?_eq_some_iff.mp he).1
    omega
  · rename_i hl
    have hready : routerReady cnf (routerPrepare cnf env.now r) =
        routerExpireMap cnf (routerPrepare cnf env.now r) := by simp [routerReady, hu, hl]
    have hloop := hint_loop_first cnf env (hintPoint hint) _ 0
      (routerReady cnf (routerPrepare cnf env.now r)) (Nat.add_zero _)
    simp only [hready] at hloop hsame hback
    refine hloop.congr ?_ ?_
    · intro k d hd
      obtain ⟨e, he, hstem⟩ := hsame.get hd
      exact ⟨e, he, by rw [fresh_behind hf (hready ▸ hd), stem_passes hstem k]⟩
    · intro k e he
      obtain ⟨d, hd, hstem⟩ := hback.get he
      exact ⟨d, hd, by rw [fresh_behind hf (hready ▸ hd), stem_passes hstem k]⟩

theorem hint_right (hf : FreshMap cnf r env.now) (hu : routerUsesMap cnf = true) (hint : UInt32) :
    Right cnf env r (routerChooseDstHint cnf env (routerPrepare cnf env.now r) hint).2 ↔
      BehindPasses cnf env r (hintPoint hint) := by
  have hfirst := hint_first hf hu hint
  revert hfirst
  cases (routerChooseDstHint cnf env (routerPrepare cnf env.now r) hint).2 with
  | some j =>
    rintro ⟨d, _, hd, ⟨hb, hp⟩, hall⟩
    have hmem : (d, j) ∈ r.dst.zipIdx := List.mem_zipIdx_iff_getElem?.mpr hd
    constructor
    · rintro ⟨d', hd', hg, _⟩
      obtain rfl := Option.some.inj (hd.symm.trans hd')
      have hlen : j < r.dst.length := (List.getElem?_eq_some_iff.mp hd).1
      refine ⟨?_, Or.inr ⟨(d, j), hmem, hlen, hb, hg, hp⟩⟩
      rintro ⟨e, k⟩ he hbk hpk hbad
      have hget := List.mem_zipIdx_iff_getElem?.mp he
      refine ⟨(d, j), hmem, ?_, hb, hg, hp⟩
      rcases Nat.lt_trichotomy j k with hlt | rfl | hlt
      · exact hlt
      · obtain rfl := Option.some.inj (hd.symm.trans hget)
        simp [hg] at hbad
      · exact absurd ⟨hbk, hpk⟩ (hall k e (Nat.zero_le k) hlt hget)
    · rintro ⟨hclean, _⟩
      refine ⟨d, hd, ?_, hp⟩
      by_contra hbad
      obtain ⟨⟨e, k⟩, he, hlt, hbk, _, hpk⟩ := hclean (d, j) hmem hb hp (by simpa using hbad)
      exact hall k e (Nat.zero_le k) hlt (List.mem_zipIdx_iff_getElem?.mp he) ⟨hbk, hpk⟩
  | none =>
    intro hall
    have hnone : ∀ x ∈ r.dst.zipIdx, Behind cnf env r (hintPoint hint) x.2 →
        passes cnf env x.2 x.1 = true → False := by
      rintro ⟨e, k⟩ he hbk hpk
      exact hall k e (Nat.zero_le k) (List.mem_zipIdx_iff_getElem?.mp he) ⟨hbk, hpk⟩
    constructor
    · intro hleft
      exact ⟨fun x hx hb hp _ => (hnone x hx hb hp).elim, Or.inl hleft⟩
    · rintro ⟨_, hleft | ⟨y, hy, _, hb, _, hpy⟩⟩
      · exact hleft
      · exact (hnone y hy hb hpy).elim

end map

/-- A choice with extra checks fails over as it should exactly under the condition of
its policy. -/
theorem fails_over_iff (hp : cnf.policy ≠ .single)
    (hf : routerUsesMap cnf = true → FreshMap cnf r env.now) :
    FailsOver cnf env r hint ↔ ExtraOk cnf env r hint := by
  unfold FailsOver ExtraOk
  rw [choose_returns, routerPolicy]
  cases hc : cnf.policy with
  | least => exact least_right
  | round => exact round_right
  | single => exact absurd hc hp
  | random =>
    have hu : routerUsesMap cnf = true := by simp [routerUsesMap, hc, Policy.toNat]
    exact hint_right (hf hu) hu _
  | source =>
    have hu : routerUsesMap cnf = true := by simp [routerUsesMap, hc, Policy.toNat]
    exact hint_right (hf hu) hu hint

def withExtra (policy : Policy) : Cnf := ⟨policy, false, 10 ^ 9, 10 ^ 9, 0, false, false, 8⟩

/-- Two servers that a watchdog probes. -/
def probed (weightA weightB : ℚ) : List RouterOp :=
  [.change ⟨100, 100, true⟩ ⟨serverA, weightA⟩ (some 1), .change ⟨100, 100, true⟩ ⟨serverB, weightB⟩ (some 2)]

/-- The probe of the first server fails, that of the second passes. -/
def firstDown : ChooseEnv := ⟨100, fun i => ⟨10 ^ 10, i ≠ 0, 10 ^ 10, 100⟩, 0⟩

theorem fails_over_iff_first_down :
    FailsOver (withExtra .source) firstDown (reached (withExtra .source) (probed 1 1)) 0x10000000 ∧
      (routerChooseDst (withExtra .source) firstDown (reached (withExtra .source) (probed 1 1)) 0x10000000).2 =
        some 1 := by
  refine ⟨(fails_over_iff (by decide) (fun _ => ?_)).mpr ?_, by decide +kernel⟩
  · decide +kernel
  · change BehindPasses _ _ _ _
    decide +kernel

/-- LEAST probes one server and gives up. SOURCE goes on to a drained server. -/
theorem no_fail_over_first_down :
    ¬ FailsOver (withExtra .least) firstDown (reached (withExtra .least) (probed 2 1)) 0 ∧
    FreshMap (withExtra .source) (reached (withExtra .source) (probed 1 0)) 100 ∧
    ¬ FailsOver (withExtra .source) firstDown (reached (withExtra .source) (probed 1 0)) 0x10000000 := by
  refine ⟨?_, ?_, ?_⟩
  all_goals decide +kernel

end Glb.Proofs.ExtraChecks
