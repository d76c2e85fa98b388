import Glb.Lib.SwapRemove

namespace Lib.Sweep
open Lib.SwapRemove

/-- A sweep of an unordered array from index `n - 1` down to zero. An entry that is
gone is taken out and the last one moves into the hole, any other is replaced by what
`upd` makes of it. The last list holds the entries that stayed, as the sweep found
them, in the order it came to them. -/
inductive Swept (gone : α → Bool) (upd : α → α → Prop) : Nat → List α → List α → List α → Prop
  | done (l : List α) : Swept gone upd 0 l l []
  | reaped {n : Nat} {x : α} {l l' log : List α} (hx : l[n]? = some x) (hg : gone x = true)
    (h : Swept gone upd n (swapRemove l n) l' log) : Swept gone upd (n + 1) l l' log
  | kept {n : Nat} {x y : α} {l l' log : List α} (hx : l[n]? = some x) (hg : gone x = false)
    (hy : upd x y) (h : Swept gone upd n (l.set n y) l' log) : Swept gone upd (n + 1) l l' (x :: log)

variable {gone : α → Bool} {upd : α → α → Prop} {l l' log : List α} {n s : Nat} {x : α}

theorem take_succ (hx : l[n]? = some x) : l.take (n + 1) = l.take n ++ [x] := by
  rw [List.take_add_one, hx]
  rfl

theorem count_succ (hx : l[n]? = some x) (gone : α → Bool) :
    (l.take (n + 1)).countP gone = (l.take n).countP gone + if gone x then 1 else 0 := by
  rw [take_succ hx, List.countP_append, List.countP_singleton]

theorem Swept.length (h : Swept gone upd n l l' log) : l'.length + (l.take n).countP gone = l.length := by
  induction h with
  | done l => simp
  | @reaped n x l l' log hx hg _ ih =>
    have hn : n < l.length := (List.getElem?_eq_some_iff.mp hx).1
    rw [swapRemove_take _ _ hn, swapRemove_length] at ih
    rw [count_succ hx, if_pos hg]
    omega
  | kept hx hg _ _ ih =>
    rw [List.take_set_of_le (Nat.le_refl _), List.length_set] at ih
    rw [count_succ hx, hg]
    simpa using ih

/-- An entry that the sweep has passed stays in its place as long as the array does
not shrink to its index. -/
theorem Swept.get (h : Swept gone upd n l l' log) (hs : n ≤ s)
    (hlt : (l.take n).countP gone + s < l.length) : l'[s]? = l[s]? := by
  induction h with
  | done l => rfl
  | @reaped n x l l' log hx hg _ ih =>
    have hn : n < l.length := (List.getElem?_eq_some_iff.mp hx).1
    rw [count_succ hx, if_pos hg] at hlt
    rw [swapRemove_take _ _ hn, swapRemove_length] at ih
    rw [ih (by omega) (by omega), swapRemove_getElem? l n s hn (by omega), if_neg (by omega)]
  | kept hx hg _ _ ih =>
    rw [count_succ hx, hg] at hlt
    rw [List.take_set_of_le (Nat.le_refl _), List.length_set] at ih
    rw [ih (by omega) (by simpa using hlt), List.getElem?_set_ne (by omega)]

/-- Up to order and to what the updates change, the sweep leaves the entries that are
not gone. -/
theorem Swept.perm (h : Swept gone upd n l l' log) (f : α → β) (hf : ∀ x y, upd x y → f y = f x) :
    (l'.map f).Perm (((l.take n).filter (fun x => !gone x) ++ l.drop n).map f) := by
  induction h with
  | done l => simp
  | @reaped n x l l' log hx hg _ ih =>
    have hn : n < l.length := (List.getElem?_eq_some_iff.mp hx).1
    have hrest : ((swapRemove l n).drop n).Perm (l.drop (n + 1)) := by
      have hd := drop_swapRemove_perm l n n x (Nat.le_refl n) hx
      have hcons : l.drop n = x :: l.drop (n + 1) := by
        rw [List.drop_eq_getElem_cons hn, (List.getElem?_eq_some_iff.mp hx).2]
      rw [hcons] at hd
      exact (List.Perm.cons_inv hd).symm
    rw [swapRemove_take _ _ hn] at ih
    rw [take_succ hx, List.filter_append, List.filter_singleton, hg]
    simp only [Bool.not_true, cond_false, List.append_nil]
    exact ih.trans ((hrest.append_left _).map f)
  | @kept n x y l l' log hx hg hy _ ih =>
    have hn : n < l.length := (List.getElem?_eq_some_iff.mp hx).1
    have hdrop : (l.set n y).drop n = y :: l.drop (n + 1) := by
      rw [List.drop_set, if_neg (by omega), Nat.sub_self, List.drop_eq_getElem_cons hn,
        List.set_cons_zero]
    rw [List.take_set_of_le (Nat.le_refl _), hdrop] at ih
    rw [take_succ hx, List.filter_append, List.filter_singleton, hg]
    simpa [hf x y hy] using ih

/-- Every entry that is not gone is come to exactly once. -/
theorem Swept.log_eq (h : Swept gone upd n l l' log) :
    log = ((l.take n).filter (fun x => !gone x)).reverse := by
  induction h with
  | done l => simp
  | @reaped n x l l' log hx hg _ ih =>
    have hn : n < l.length := (List.getElem?_eq_some_iff.mp hx).1
    rw [ih, swapRemove_take _ _ hn, take_succ hx, List.filter_append, List.filter_singleton, hg]
    simp
  | kept hx hg _ _ ih =>
    rw [ih, List.take_set_of_le (Nat.le_refl _), take_succ hx, List.filter_append,
      List.filter_singleton, hg]
    simp

end Lib.Sweep
