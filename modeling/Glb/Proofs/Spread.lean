import Glb.Proofs.MapShare
import Mathlib.Data.Rat.Floor
import Mathlib.Tactic.Positivity

namespace Glb.Proofs.Spread
open RouterFrame RouterRun TopDst MapShare Lib.Share

variable {cnf : Cnf} {env : ChooseEnv} {r : Router} {d : RouterDst} {i : Nat} {c : ℚ}

/-- How many hints `router_choose_dst_hint` sends to the destination with index `i`. -/
def hintsTo (cnf : Cnf) (env : ChooseEnv) (r : Router) (i : Nat) : Nat :=
  ((Finset.range (2 ^ 32)).filter
    (fun h => (routerChooseDstHint cnf env r (UInt32.ofNat h)).2 = some i)).card

/-- The weight that the last rebuild of the map divided up. -/
def goodTotal (r : Router) : ℚ := (r.dst.map (goodWeight r.ctx)).sum

/-- With no rebuild pending a hint picks from the map as it is. -/
theorem hint_picks (he : cnf.extra = 0) (hm : r.mapFailed = 0) (hint : UInt32) :
    (routerChooseDstHint cnf env r hint).2 =
      (r.dst.map RouterDst.map).findIdx? (fun c => hintPoint hint < c) := by
  have hidle : routerExpireMap cnf r = r := by simp [routerExpireMap, hm]
  unfold routerChooseDstHint
  split
  · rename_i hl
    simp [List.length_eq_zero_iff.mp hl]
  · simp only [hidle]
    rw [hint_loop_spec he _ _ 0 r (by simp)]
    simp [List.findIdx?_map, Function.comp_def]

/-- The point that stands for hint number `h`. -/
def point (h : Nat) : ℚ := hintPoint (UInt32.ofNat h)

theorem point_eq (hh : h < 2 ^ 32) : point h = h / 4294967295 - 1 / 10 ^ 9 := by
  have hn : (UInt32.ofNat h).toNat = h := UInt32.toNat_ofNat_of_lt' hh
  rw [point, hintPoint, hn]
  norm_num [routerDivProt]

/-- Hints stand for points a little below their part of the unit interval, so the
number of those below a border is off by less than six, and never too small. -/
theorem below_near (h0 : 0 ≤ c) (h1 : c ≤ 1) :
    2 ^ 32 * c ≤ below point (2 ^ 32) c ∧ (below point (2 ^ 32) c : ℚ) ≤ 2 ^ 32 * c + 6 := by
  have hpt : ∀ h ∈ Finset.range (2 ^ 32), point h < c ↔ h < ⌈(c + 1 / 10 ^ 9) * 4294967295⌉₊ := by
    intro h hh
    rw [point_eq (Finset.mem_range.mp hh), Nat.lt_ceil, sub_lt_iff_lt_add,
      div_lt_iff₀ (by norm_num)]
  have hcard : below point (2 ^ 32) c = min (2 ^ 32) ⌈(c + 1 / 10 ^ 9) * 4294967295⌉₊ := by
    rw [below, Finset.filter_congr hpt]
    have hr : (Finset.range (2 ^ 32)).filter (· < ⌈(c + 1 / 10 ^ 9) * 4294967295⌉₊) =
        Finset.range (min (2 ^ 32) ⌈(c + 1 / 10 ^ 9) * 4294967295⌉₊) := by
      ext h
      simp only [Finset.mem_filter, Finset.mem_range, lt_min_iff]
    rw [hr, Finset.card_range]
  have hpos : 0 ≤ (c + 1 / 10 ^ 9) * 4294967295 := by positivity
  have hup := Nat.ceil_lt_add_one hpos
  have hlow := Nat.le_ceil ((c + 1 / 10 ^ 9) * 4294967295)
  rw [hcard]
  push_cast
  refine ⟨le_min (by linarith) (by linarith), ?_⟩
  exact le_trans (min_le_right _ _) (by linarith)

theorem good_weight_listed (hw : ∀ d ∈ r.dst,
      routerDstIsGood d r.ctx.minWeight r.ctx.now r.ctx.retry = true → 0 ≤ d.dst.weight) :
    ∀ w ∈ r.dst.map (goodWeight r.ctx), 0 ≤ w := by
  intro w hm
  obtain ⟨d, hd, rfl⟩ := List.mem_map.mp hm
  unfold goodWeight
  split
  · rename_i hg
    exact hw d hd hg
  · exact le_refl 0

/-- The borders of a rebuilt map with something to divide up. -/
structure Borders (r : Router) : Prop where
  sorted : (0 :: (routerRedoMap r).dst.map RouterDst.map).Pairwise (· ≤ ·)
  last : ∃ i : Nat, ((routerRedoMap r).dst.map RouterDst.map)[i]? = some 1
  within : ∀ c ∈ (routerRedoMap r).dst.map RouterDst.map, 0 ≤ c ∧ c ≤ 1

theorem rebuilt_borders (hw : ∀ d ∈ r.dst,
      routerDstIsGood d r.ctx.minWeight r.ctx.now r.ctx.retry = true → 0 ≤ d.dst.weight)
    (ht : 0 < goodTotal r) : Borders r := by
  have hws := good_weight_listed hw
  have hcuts := redo_map_total r (ne_of_gt ht)
  have hsorted := cuts_sorted (r.dst.map (goodWeight r.ctx)).sum 0 _ (le_of_lt ht) hws
  rw [← hcuts] at hsorted
  have hne : r.dst.length ≠ 0 := by
    intro h0
    simp [goodTotal, List.length_eq_zero_iff.mp h0] at ht
  have hlast : ((routerRedoMap r).dst.map RouterDst.map)[r.dst.length - 1]? = some 1 := by
    rw [hcuts, cuts_getElem? _ _ _ _ (by simp; omega), List.take_of_length_le (by simp; omega)]
    have h1 : (r.dst.map (goodWeight r.ctx)).sum ≠ 0 := ne_of_gt ht
    rw [div_self h1, add_zero]
  refine ⟨hsorted, ⟨_, hlast⟩, ?_⟩
  intro c hc
  refine ⟨(List.pairwise_cons.mp hsorted).1 c hc, ?_⟩
  obtain ⟨i, hi⟩ := List.mem_iff_getElem?.mp hc
  obtain ⟨hlt, hv⟩ := List.getElem?_eq_some_iff.mp hlast
  obtain ⟨hli, hvi⟩ := List.getElem?_eq_some_iff.mp hi
  rcases Nat.lt_or_ge i (r.dst.length - 1) with hil | hil
  · have := List.pairwise_iff_getElem.mp (List.pairwise_cons.mp hsorted).2 i _ hli hlt hil
    rwa [hv, hvi] at this
  · have he : i = r.dst.length - 1 := by
      have hlen := congrArg List.length hcuts
      have hmap : ((routerRedoMap r).dst.map RouterDst.map).length = r.dst.length := by
        have := congrArg List.length (redo_map_core r)
        simpa using this
      omega
    subst he
    rw [← hvi, hv]

theorem hint_point_lt_one (hint : UInt32) : hintPoint hint < 1 := by
  have hlt : (hint.toNat : ℚ) ≤ 4294967295 := by
    exact_mod_cast Nat.le_of_lt_succ hint.toNat_lt
  have hle : (hint.toNat : ℚ) / 4294967295 ≤ 1 := (div_le_one (by norm_num)).mpr hlt
  unfold hintPoint routerDivProt
  linarith

theorem start_near (hb : Borders r) (hi : i < (routerRedoMap r).dst.length) :
    ∃ e : ℚ, 0 ≤ e ∧ e ≤ 6 ∧
      (belowStart point (2 ^ 32) ((routerRedoMap r).dst.map RouterDst.map) i : ℚ) =
        2 ^ 32 * (0 :: (routerRedoMap r).dst.map RouterDst.map).getD i 0 + e := by
  cases i with
  | zero => exact ⟨0, by norm_num, by norm_num, by simp [belowStart]⟩
  | succ j =>
    have hj : j < ((routerRedoMap r).dst.map RouterDst.map).length := by
      rw [List.length_map]
      omega
    have hget := List.getElem?_eq_getElem hj
    obtain ⟨h0, h1⟩ := hb.within _ (List.getElem_mem hj)
    obtain ⟨hlow, hup⟩ := below_near h0 h1
    simp only [belowStart, List.getD_eq_getElem?_getD, List.getElem?_cons_succ, hget, Option.getD_some]
    exact ⟨_, sub_nonneg.mpr hlow, by linarith, (add_sub_cancel _ _).symm⟩

/-- Right after a rebuild with something to divide up, every hint finds a destination,
and each destination gets its part of the hints in proportion to its weight, up to
the rounding at its two borders. -/
theorem hints_spread (env : ChooseEnv) (he : cnf.extra = 0) (hm : r.mapFailed = 0)
    (hw : ∀ d ∈ r.dst,
      routerDstIsGood d r.ctx.minWeight r.ctx.now r.ctx.retry = true → 0 ≤ d.dst.weight)
    (ht : 0 < goodTotal r) :
    (∀ hint, (routerChooseDstHint cnf env (routerRedoMap r) hint).2 ≠ none) ∧
    ∀ i d, r.dst[i]? = some d →
      |(hintsTo cnf env (routerRedoMap r) i : ℚ) - 2 ^ 32 *
        ((if routerDstIsGood d r.ctx.minWeight r.ctx.now r.ctx.retry then d.dst.weight else 0) /
          goodTotal r)| ≤ 8 := by
  have hb := rebuilt_borders hw ht
  have hfresh : (routerRedoMap r).mapFailed = 0 := (redo_map_top r).2.2.trans hm
  refine ⟨?_, ?_⟩
  · intro hint
    rw [hint_picks he hfresh]
    obtain ⟨k, hk⟩ := hb.last
    intro hnone
    have hno := List.findIdx?_eq_none_iff.mp hnone 1 (List.mem_of_getElem? hk)
    simp [hint_point_lt_one] at hno
  · intro i d hd
    have hpicks : hintsTo cnf env (routerRedoMap r) i =
        picks point (2 ^ 32) ((routerRedoMap r).dst.map RouterDst.map) i := by
      unfold hintsTo picks point
      simp only [hint_picks he hfresh]
    have hcuts := redo_map_total r (ne_of_gt ht)
    have hlen : (routerRedoMap r).dst.length = r.dst.length := by
      simpa using congrArg List.length (redo_map_core r)
    have hi : i < r.dst.length := (List.getElem?_eq_some_iff.mp hd).1
    have hci : i < ((routerRedoMap r).dst.map RouterDst.map).length := by
      rw [List.length_map, hlen]
      exact hi
    have hget := List.getElem?_eq_getElem hci
    -- the piece is as long as its weight's part, and its two borders are each off by
    -- at most six
    have hshare : share 0 ((routerRedoMap r).dst.map RouterDst.map) i =
        goodWeight r.ctx d / goodTotal r := by
      rw [hcuts]
      exact share_cuts _ _ _ i _ (by simp [hd])
    rw [share, List.getD_eq_getElem?_getD, hget, Option.getD_some] at hshare
    have hcount := picks_eq (x := point) (2 ^ 32) (List.pairwise_cons.mp hb.sorted).2 hget
    obtain ⟨h0, h1⟩ := hb.within _ (List.getElem_mem hci)
    obtain ⟨hlow, hup⟩ := below_near h0 h1
    obtain ⟨e, he0, he6, hstart⟩ := start_near hb (hlen ▸ hi)
    have hsum : (hintsTo cnf env (routerRedoMap r) i : ℚ) +
        belowStart point (2 ^ 32) ((routerRedoMap r).dst.map RouterDst.map) i =
          below point (2 ^ 32) ((routerRedoMap r).dst.map RouterDst.map)[i] := by
      rw [hpicks]
      exact_mod_cast hcount
    change |_ - 2 ^ 32 * (goodWeight r.ctx d / goodTotal r)| ≤ 8
    rw [← hshare, abs_le]
    constructor <;> linarith

/-- A server of weight 1, a failed one and one of weight 3. -/
def quarter : Router :=
  { Router.init with
    ctx := ⟨glbDblEpsilon, 2, 100⟩
    dst := [routerNewDst ⟨serverA, 1⟩ none 0,
      { routerNewDst ⟨⟨2, 3306, ⟨10, 0, 0, 3⟩, 0⟩, 5⟩ none 0 with failed := 100 },
      routerNewDst ⟨serverB, 3⟩ none 0] }

theorem hints_spread_quarter :
    |(hintsTo sourceMap (chooseAt 100) (routerRedoMap quarter) 0 : ℚ) - 2 ^ 30| ≤ 8 ∧
      |(hintsTo sourceMap (chooseAt 100) (routerRedoMap quarter) 1 : ℚ) - 0| ≤ 8 := by
  have he : sourceMap.extra = 0 := rfl
  have hm : quarter.mapFailed = 0 := rfl
  have ht : goodTotal quarter = 4 := by decide +kernel
  have h := (hints_spread (chooseAt 100) he hm (by decide +kernel) (by rw [ht]; norm_num)).2
  have h0 := h 0 _ rfl
  have h1 := h 1 _ rfl
  rw [ht] at h0 h1
  refine ⟨?_, ?_⟩
  · convert h0 using 3
    decide +kernel
  · convert h1 using 3
    decide +kernel

end Glb.Proofs.Spread
