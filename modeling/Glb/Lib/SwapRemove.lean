import Mathlib.Data.List.Basic
import Mathlib.Data.List.Perm.Basic

namespace Lib.SwapRemove

/-- Removal from an unordered array: the last element moves into the hole. -/
def swapRemove (l : List α) (i : Nat) : List α :=
  match l.getLast? with
  | none => l
  | some x => (l.set i x).dropLast

@[simp] theorem swapRemove_length (l : List α) (i : Nat) :
    (swapRemove l i).length = l.length - 1 := by
  unfold swapRemove
  cases h : l.getLast? with
  | none => simp [List.getLast?_eq_none_iff.mp h]
  | some x => simp

theorem swapRemove_append (l : List α) (x : α) (i : Nat) (hi : i < l.length) :
    swapRemove (l ++ [x]) i = l.set i x := by
  have hs : (l ++ [x]).set i x = l.set i x ++ [x] := List.set_append_left _ _ hi
  simp [swapRemove, hs]

theorem swapRemove_last (l : List α) (x : α) : swapRemove (l ++ [x]) l.length = l := by
  simp [swapRemove]

/-- Up to order, `swapRemove` takes out exactly the element at its index. -/
theorem swapRemove_perm (l : List α) (i : Nat) (x : α) (hx : l[i]? = some x) :
    l.Perm (x :: swapRemove l i) := by
  obtain ⟨hi, hx⟩ := List.getElem?_eq_some_iff.mp hx
  rcases List.eq_nil_or_concat l with hl | ⟨ys, y, hl⟩
  · simp [hl] at hi
  · rw [List.concat_eq_append] at hl
    subst hl
    by_cases he : i < ys.length
    · rw [swapRemove_append ys y i he]
      have hxi : ys[i] = x := by simpa [List.getElem_append_left he] using hx
      have hset : (ys.set i y).Perm (y :: ys.eraseIdx i) := by
        rw [List.set_eq_take_append_cons_drop, List.eraseIdx_eq_take_drop_succ, if_pos he]
        exact List.perm_middle
      have hys : ys.Perm (x :: ys.eraseIdx i) := by
        rw [← hxi]
        exact (List.getElem_cons_eraseIdx_perm he).symm
      calc (ys ++ [y]).Perm (y :: ys) := List.perm_append_singleton y ys
        _ |>.Perm (y :: x :: ys.eraseIdx i) := hys.cons y
        _ |>.Perm (x :: y :: ys.eraseIdx i) := List.Perm.swap x y _
        _ |>.Perm (x :: ys.set i y) := hset.symm.cons x
    · have hii : i = ys.length := by simp at hi; omega
      subst hii
      have hxy : y = x := by simpa using hx
      rw [swapRemove_last, ← hxy]
      exact List.perm_append_singleton y ys

theorem swapRemove_getElem? (l : List α) (i j : Nat) (hi : i < l.length) (hj : j < l.length - 1) :
    (swapRemove l i)[j]? = if j = i then l.getLast? else l[j]? := by
  rcases List.eq_nil_or_concat l with hl | ⟨ys, y, hl⟩
  · simp [hl] at hi
  · rw [List.concat_eq_append] at hl
    subst hl
    have hjy : j < ys.length := by simpa using hj
    by_cases he : i < ys.length
    · rw [swapRemove_append ys y i he]
      by_cases hji : j = i
      · subst hji
        simp [he]
      · simp [hji, List.getElem?_append_left hjy, List.getElem?_set_ne (Ne.symm hji)]
    · have hii : i = ys.length := by simp at hi; omega
      have hji : j ≠ i := by omega
      rw [hii, swapRemove_last, if_neg (hii ▸ hji), List.getElem?_append_left hjy]

theorem swapRemove_take (l : List α) (i : Nat) (hi : i < l.length) : (swapRemove l i).take i = l.take i := by
  apply List.ext_getElem?
  intro j
  rw [List.getElem?_take, List.getElem?_take]
  by_cases hj : j < i
  · rw [if_pos hj, if_pos hj, swapRemove_getElem? l i j hi (by omega), if_neg (by omega)]
  · rw [if_neg hj, if_neg hj]

theorem mem_of_mem_swapRemove {l : List α} {i : Nat} {y : α} (h : y ∈ swapRemove l i) : y ∈ l := by
  by_cases hi : i < l.length
  · exact (swapRemove_perm l i l[i] (List.getElem?_eq_getElem hi)).mem_iff.mpr
      (List.mem_cons_of_mem _ h)
  · have hs : ∀ x, l.set i x = l := fun x => List.set_eq_of_length_le (by omega)
    unfold swapRemove at h
    split at h
    · exact h
    · rw [hs] at h
      exact List.dropLast_subset _ h

theorem swapRemove_map (f : α → β) (l : List α) (i : Nat) :
    (swapRemove l i).map f = swapRemove (l.map f) i := by
  unfold swapRemove
  cases h : l.getLast? with
  | none => simp [List.getLast?_eq_none_iff.mp h]
  | some x => simp [List.getLast?_map, h, List.map_dropLast, List.map_set]

/-- The index of the element that the part from `d` on loses with the one at `i`. -/
def lostFrom (n i d : Nat) : Nat := if d ≤ i then i else n - 1

theorem drop_swapRemove_perm (l : List α) (i d : Nat) (x : α) (hd : d ≤ i) (hx : l[i]? = some x) :
    (l.drop d).Perm (x :: (swapRemove l i).drop d) := by
  have hi := (List.getElem?_eq_some_iff.mp hx).1
  have hdrop : (swapRemove l i).drop d = swapRemove (l.drop d) (i - d) := by
    rcases List.eq_nil_or_concat l with hl | ⟨ys, y, hl⟩
    · simp [hl] at hi
    · rw [List.concat_eq_append] at hl
      subst hl
      have hlen : i ≤ ys.length := by simpa [Nat.lt_succ_iff] using hi
      rw [List.drop_append_of_le_length (by omega)]
      by_cases he : i < ys.length
      · rw [swapRemove_append ys y i he, swapRemove_append _ y _ (by simp; omega), List.drop_set,
          if_neg (by omega)]
      · have hii : i = ys.length := by omega
        have hk : i - d = (ys.drop d).length := by simp [hii]
        rw [hk, swapRemove_last, hii, swapRemove_last]
  rw [hdrop]
  refine swapRemove_perm _ _ x ?_
  rw [List.getElem?_drop, Nat.add_sub_cancel' hd]
  exact hx

theorem countP_drop_swapRemove (p : α → Bool) (l : List α) (i d : Nat) (hi : i < l.length) :
    (l.drop d).countP p = ((swapRemove l i).drop d).countP p +
      if d ≤ lostFrom l.length i d ∧ (l[lostFrom l.length i d]?).any p then 1 else 0 := by
  unfold lostFrom
  by_cases hd : d ≤ i
  · have hx : l[i]? = some l[i] := List.getElem?_eq_getElem hi
    rw [(drop_swapRemove_perm l i d l[i] hd hx).countP_eq p, List.countP_cons]
    simp [hd, hx]
  · rw [if_neg hd]
    rcases List.eq_nil_or_concat l with hl | ⟨ys, y, hl⟩
    · simp [hl] at hi
    · rw [List.concat_eq_append] at hl
      subst hl
      have hsame : (swapRemove (ys ++ [y]) i).drop d = ys.drop d := by
        by_cases he : i < ys.length
        · rw [swapRemove_append ys y i he, List.drop_set, if_pos (by omega)]
        · have hii : i = ys.length := by simp at hi; omega
          rw [hii, swapRemove_last]
      rw [hsame]
      by_cases hlast : d ≤ ys.length
      · simp [List.drop_append_of_le_length hlast, hlast, List.countP_append, List.countP_cons]
      · have hnil : (ys ++ [y]).drop d = [] := List.drop_eq_nil_of_le (by simp; omega)
        have hnil' : ys.drop d = [] := List.drop_eq_nil_of_le (by omega)
        simp [hnil, hnil', hlast]

end Lib.SwapRemove
