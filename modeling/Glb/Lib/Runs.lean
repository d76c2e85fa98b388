import Mathlib.Data.List.TakeWhile

namespace Lib.Runs

variable {α : Type} {sep : α → Bool} {x : α} {xs run : List α}

/-- The maximal runs of elements that do not separate, in order. -/
def runs (sep : α → Bool) (xs : List α) : List (List α) := (xs.splitOnP sep).filter fun run => !run.isEmpty

theorem split_on_first (xs : List α) :
    xs.splitOnP sep = xs.takeWhile (fun x => !sep x) ::
      (match xs.dropWhile (fun x => !sep x) with
        | [] => []
        | _ :: rest => rest.splitOnP sep) := by
  induction xs with
  | nil => simp
  | cons x xs ih =>
    rw [List.splitOnP_cons_eq_if_modifyHead]
    cases hx : sep x with
    | true => simp [hx]
    | false =>
      rw [if_neg (by simp), ih]
      simp [hx]

@[simp] theorem runs_nil : runs sep ([] : List α) = [] := by simp [runs]

theorem runs_sep (hx : sep x = true) (xs : List α) : runs sep (x :: xs) = runs sep xs := by
  unfold runs
  rw [List.splitOnP_cons_eq_if_modifyHead, if_pos hx]
  rfl

/-- A run goes on up to the next separator. -/
theorem runs_cons (hx : sep x = false) (xs : List α) :
    runs sep (x :: xs) = (x :: xs.takeWhile (fun x => !sep x)) :: runs sep (xs.dropWhile fun x => !sep x) := by
  have hnext : ∀ rest : List α, (rest = [] ∨ ∃ y ys, rest = y :: ys ∧ sep y = true) →
      (match rest with
        | [] => []
        | _ :: ys => ys.splitOnP sep).filter (fun run => !run.isEmpty) = runs sep rest := by
    rintro rest (rfl | ⟨y, ys, rfl, hy⟩)
    · simp
    · exact (runs_sep hy ys).symm
  have hrest : xs.dropWhile (fun x => !sep x) = [] ∨
      ∃ y ys, xs.dropWhile (fun x => !sep x) = y :: ys ∧ sep y = true := by
    cases hd : xs.dropWhile (fun x => !sep x) with
    | nil => exact .inl rfl
    | cons y ys =>
      have hy := List.head_dropWhile_not (fun x => !sep x) (w := by rw [hd]; simp)
      simp only [hd, List.head_cons, Bool.not_eq_false'] at hy
      exact .inr ⟨y, ys, rfl, hy⟩
  rw [← hnext _ hrest]
  unfold runs
  rw [split_on_first]
  simp [hx]

theorem mem_runs (h : run ∈ runs sep xs) : run ≠ [] ∧ ∀ x ∈ run, sep x = false := by
  induction hn : xs.length using Nat.strong_induction_on generalizing xs with
  | _ n ih =>
    cases xs with
    | nil => simp at h
    | cons x xs =>
      cases hx : sep x with
      | true =>
        rw [runs_sep hx] at h
        exact ih xs.length (by simp [← hn]) h rfl
      | false =>
        rw [runs_cons hx] at h
        rcases List.mem_cons.mp h with rfl | h
        · refine ⟨by simp, fun y hy => ?_⟩
          rcases List.mem_cons.mp hy with rfl | hy
          · exact hx
          · simpa using List.mem_takeWhile_imp hy
        · have hle := (List.dropWhile_suffix (l := xs) fun x => !sep x).length_le
          refine ih _ ?_ h rfl
          simp only [← hn, List.length_cons]
          omega

end Lib.Runs
