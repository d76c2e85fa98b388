import Mathlib.Data.List.Basic
import Mathlib.Logic.Function.Basic

namespace Lib.Tally
open Function

variable {K : Type} [DecidableEq K]

/-- How many of the first `n` slots hold a key. -/
def tally (f : Nat → Option K) (n : Nat) (k : K) : Nat := (List.range n).countP (fun b => f b = some k)

/-- What one slot adds to the tally. -/
def mark (x : Option K) (k : K) : Int := if x = some k then 1 else 0

@[simp] theorem mark_none (k : K) : mark none k = 0 := by simp [mark]

theorem mark_some (a k : K) : mark (some a) k = if k = a then 1 else 0 := by
  by_cases h : a = k
  · simp [mark, h]
  · have hk : k ≠ a := fun e => h e.symm
    simp [mark, h, hk]

theorem tally_succ (f : Nat → Option K) (n : Nat) (k : K) :
    (tally f (n + 1) k : Int) = tally f n k + mark (f n) k := by
  unfold tally mark
  rw [List.range_succ, List.countP_append]
  by_cases h : f n = some k <;> simp [h]

/-- A slot past the end does not count. -/
theorem tally_update_ge (f : Nat → Option K) (x : Option K) (k : K) (hb : n ≤ b) :
    tally (update f b x) n k = tally f n k := by
  unfold tally
  apply List.countP_congr
  intro j hj
  have hne : j ≠ b := by
    rw [List.mem_range] at hj
    omega
  simp [hne]

/-- Changing one slot moves the tally by what the slot held and holds. -/
theorem tally_update (f : Nat → Option K) (x : Option K) (k : K) (hb : b < n) :
    (tally (update f b x) n k : Int) = tally f n k - mark (f b) k + mark x k := by
  induction n with
  | zero => omega
  | succ n ih =>
    rw [tally_succ, tally_succ]
    by_cases he : b = n
    · subst he
      rw [tally_update_ge f x k (Nat.le_refl b), update_self]
      omega
    · have hne : n ≠ b := fun h => he h.symm
      rw [ih (by omega), update_of_ne hne]
      omega

/-- Changing one element of a list moves a count likewise. -/
theorem countP_set_int {l : List α} (p : α → Bool) (hx : l[i]? = some x) (y : α) :
    ((l.set i y).countP p : Int) = l.countP p - (if p x then 1 else 0) + if p y then 1 else 0 := by
  obtain ⟨hi, hget⟩ := List.getElem?_eq_some_iff.mp hx
  rw [List.countP_set hi, hget]
  cases hp : p x with
  | false => cases hq : p y <;> simp
  | true =>
    have hpos : 0 < l.countP p := List.countP_pos_iff.mpr ⟨x, List.mem_of_getElem? hx, hp⟩
    cases hq : p y <;> simp <;> omega

end Lib.Tally
