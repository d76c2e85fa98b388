import Mathlib.Algebra.Order.Field.Basic
import Mathlib.Algebra.BigOperators.Group.List.Basic
import Mathlib.Data.Finset.Card
import Mathlib.Data.Finset.Range
import Mathlib.Tactic.Ring

namespace Lib.Share

variable {K : Type*} [Field K]

/-- Cuts an interval that starts at `m` in proportion to the weights; the list
holds where each piece ends. -/
def cuts (total : K) : K → List K → List K
  | _, [] => []
  | m, w :: ws => (w / total + m) :: cuts total (w / total + m) ws

/-- Length of piece `i`. Piece `i` starts where the one before it ends. -/
def share (m : K) (cs : List K) (i : Nat) : K := cs.getD i 0 - (m :: cs).getD i 0

@[simp] theorem share_cons (m c : K) (cs : List K) (i : Nat) :
    share m (c :: cs) (i + 1) = share c cs i := by
  simp [share]

/-- Each piece is as long as its weight's part of the total. -/
theorem share_cuts (total m : K) (ws : List K) (i : Nat) (w : K) (hw : ws[i]? = some w) :
    share m (cuts total m ws) i = w / total := by
  induction ws generalizing m i with
  | nil => simp at hw
  | cons v ws ih =>
    cases i with
    | zero =>
      simp only [List.getElem?_cons_zero, Option.some.injEq] at hw
      simp [cuts, share, hw]
    | succ i =>
      simp only [List.getElem?_cons_succ] at hw
      simpa [cuts] using ih (v / total + m) i hw

/-- A piece ends where the weights up to it end. -/
theorem cuts_getElem? (total m : K) (ws : List K) (i : Nat) (hi : i < ws.length) :
    (cuts total m ws)[i]? = some ((ws.take (i + 1)).sum / total + m) := by
  induction ws generalizing m i with
  | nil => simp at hi
  | cons w ws ih =>
    cases i with
    | zero => simp [cuts]
    | succ i =>
      rw [cuts, List.getElem?_cons_succ, ih _ i (by simpa using hi), List.take_succ_cons, List.sum_cons]
      congr 1
      ring

theorem cuts_zero (total m : K) (ws : List K) (h : ∀ w ∈ ws, w = 0) :
    cuts total m ws = ws.map (fun _ => m) := by
  induction ws with
  | nil => rfl
  | cons w ws ih =>
    have hw : w = 0 := h w (by simp)
    simp only [cuts, hw, zero_div, zero_add, List.map_cons]
    rw [ih (fun v hv => h v (by simp [hv]))]

variable [LinearOrder K]

theorem before_pick (x m : K) (cs : List K) (hm : m ≤ x) (i : Nat)
    (h : cs.findIdx? (fun c => x < c) = some i) : (m :: cs).getD i 0 ≤ x := by
  obtain ⟨hi, _, hb⟩ := List.findIdx?_eq_some_iff_getElem.mp h
  cases i with
  | zero => simpa using hm
  | succ i =>
    have hle := hb i (by omega)
    simp only [decide_eq_true_eq, not_lt] at hle
    simpa [List.getD_eq_getElem?_getD, List.getElem?_eq_getElem (show i < cs.length by omega)]
      using hle

variable [IsStrictOrderedRing K]

theorem cuts_nonneg (total m : K) (ws : List K) (ht : 0 ≤ total) (hm : 0 ≤ m)
    (hw : ∀ w ∈ ws, 0 ≤ w) : ∀ c ∈ cuts total m ws, 0 ≤ c := by
  induction ws generalizing m with
  | nil => simp [cuts]
  | cons w ws ih =>
    have hc : 0 ≤ w / total + m := add_nonneg (div_nonneg (hw w (by simp)) ht) hm
    intro c hmem
    rcases List.mem_cons.mp hmem with rfl | hmem
    · exact hc
    · exact ih _ hc (fun v hv => hw v (by simp [hv])) c hmem

/-- A point picks the first piece that ends behind it, and a point inside the
interval never picks an empty piece. -/
theorem pick_share_pos (x m : K) (cs : List K) (hm : m ≤ x) (i : Nat)
    (h : cs.findIdx? (fun c => x < c) = some i) : 0 < share m cs i := by
  obtain ⟨hi, hx, _⟩ := List.findIdx?_eq_some_iff_getElem.mp h
  have hb := before_pick x m cs hm i h
  have hc : x < cs.getD i 0 := by
    simpa [List.getD_eq_getElem?_getD, List.getElem?_eq_getElem hi] using hx
  exact sub_pos.mpr (lt_of_le_of_lt hb hc)

/-- The pieces follow each other. -/
theorem cuts_sorted (total m : K) (ws : List K) (ht : 0 ≤ total) (hw : ∀ w ∈ ws, 0 ≤ w) :
    (m :: cuts total m ws).Pairwise (· ≤ ·) := by
  induction ws generalizing m with
  | nil => simp [cuts]
  | cons w ws ih =>
    have hrest := ih (w / total + m) (fun v hv => hw v (by simp [hv]))
    have hle : m ≤ w / total + m := le_add_of_nonneg_left (div_nonneg (hw w (by simp)) ht)
    rw [cuts, List.pairwise_cons]
    refine ⟨?_, hrest⟩
    intro c hc
    rcases List.mem_cons.mp hc with rfl | hc
    · exact hle
    · exact le_trans hle ((List.pairwise_cons.mp hrest).1 c hc)

/-- How many of the first `n` points lie below `c`. -/
def below (x : Nat → K) (n : Nat) (c : K) : Nat := ((Finset.range n).filter (fun h => x h < c)).card

/-- How many of the first `n` points pick piece `i`. -/
def picks (x : Nat → K) (n : Nat) (cs : List K) (i : Nat) : Nat :=
  ((Finset.range n).filter (fun h => cs.findIdx? (fun c => x h < c) = some i)).card

/-- The points below the end of the piece in front, which are none for the first. -/
def belowStart (x : Nat → K) (n : Nat) (cs : List K) : Nat → Nat
  | 0 => 0
  | i + 1 => below x n (cs.getD i 0)

omit [IsStrictOrderedRing K] in
theorem find_idx_sorted {x : K} {cs : List K} (hs : cs.Pairwise (· ≤ ·)) {i : Nat}
    (hi : i < cs.length) :
    cs.findIdx? (fun c => x < c) = some i ↔ x < cs[i] ∧ ∀ j, i = j + 1 → ¬ x < cs.getD j 0 := by
  rw [List.findIdx?_eq_some_iff_getElem]
  simp only [decide_eq_true_eq]
  constructor
  · rintro ⟨_, hx, hb⟩
    refine ⟨hx, ?_⟩
    rintro j rfl
    have hj : j < cs.length := by omega
    rw [List.getD_eq_getElem?_getD, List.getElem?_eq_getElem hj]
    exact hb j (by omega)
  · rintro ⟨hx, hb⟩
    refine ⟨hi, hx, ?_⟩
    intro j hj
    obtain ⟨k, rfl⟩ : ∃ k, i = k + 1 := ⟨i - 1, by omega⟩
    have hk : k < cs.length := by omega
    have hlast := hb k rfl
    rw [List.getD_eq_getElem?_getD, List.getElem?_eq_getElem hk] at hlast
    simp only [Option.getD_some, not_lt] at hlast ⊢
    rcases Nat.lt_or_ge j k with hlt | hge
    · exact le_trans (List.pairwise_iff_getElem.mp hs j k (by omega) hk hlt) hlast
    · have he : j = k := by omega
      subst he
      exact hlast

omit [IsStrictOrderedRing K] in
/-- A piece is picked by the points between its ends. -/
theorem picks_eq {x : Nat → K} {cs : List K} (n : Nat) (hs : cs.Pairwise (· ≤ ·)) {i : Nat} {c : K}
    (hc : cs[i]? = some c) : picks x n cs i + belowStart x n cs i = below x n c := by
  obtain ⟨hi, rfl⟩ := List.getElem?_eq_some_iff.mp hc
  have hpick : ∀ h, cs.findIdx? (fun c => x h < c) = some i ↔
      x h < cs[i] ∧ ∀ j, i = j + 1 → ¬ x h < cs.getD j 0 := fun h => find_idx_sorted hs hi
  rw [picks, below]
  cases i with
  | zero =>
    rw [belowStart, Nat.add_zero]
    congr 1
    ext h
    simp [hpick h]
  | succ j =>
    have hj : j < cs.length := by omega
    have hle : cs[j] ≤ cs[j + 1] := List.pairwise_iff_getElem.mp hs j (j + 1) hj hi (by omega)
    have hget : cs.getD j 0 = cs[j] := by
      rw [List.getD_eq_getElem?_getD, List.getElem?_eq_getElem hj]
      rfl
    rw [belowStart, below, hget, ← Finset.card_union_of_disjoint]
    · congr 1
      ext h
      simp only [Finset.mem_union, Finset.mem_filter, Finset.mem_range, hpick h,
        Nat.add_right_cancel_iff, forall_eq', hget]
      constructor
      · rintro (⟨hn, hx, _⟩ | ⟨hn, hx⟩)
        · exact ⟨hn, hx⟩
        · exact ⟨hn, lt_of_lt_of_le hx hle⟩
      · rintro ⟨hn, hx⟩
        by_cases hb : x h < cs[j]
        · exact Or.inr ⟨hn, hb⟩
        · exact Or.inl ⟨hn, hx, hb⟩
    · rw [Finset.disjoint_filter]
      intro h _ hp hx
      exact ((hpick h).mp hp).2 j rfl (by rw [hget]; exact hx)

end Lib.Share
