import Mathlib.Algebra.Order.Field.Rat
import Mathlib.Tactic.FieldSimp
import Mathlib.Tactic.Linarith
import Mathlib.Tactic.Positivity
import Mathlib.Tactic.Ring

namespace Lib.Smooth

variable {k x lo hi : ℚ} {xs : List ℚ}

/-- Exponential smoothing that starts from zero, of measurements with the latest one
first. The old value weighs `k` times as much as a new measurement. -/
def smooth (k : ℚ) : List ℚ → ℚ
  | [] => 0
  | x :: xs => (x + smooth k xs * k) / (k + 1)

/-- The share of the measurements in the smoothed value. The rest is the share of the
zero that it started from. -/
def measuredShare (k : ℚ) (n : Nat) : ℚ := 1 - (k / (k + 1)) ^ n

theorem share_succ (hk : 0 ≤ k) (n : Nat) : measuredShare k (n + 1) = (1 + measuredShare k n * k) / (k + 1) := by
  unfold measuredShare
  rw [pow_succ]
  field_simp
  ring

/-- The smoothed value is an average of the measurements scaled down to their share. -/
theorem smooth_between (hk : 0 ≤ k) (h : ∀ x ∈ xs, lo ≤ x ∧ x ≤ hi) :
    measuredShare k xs.length * lo ≤ smooth k xs ∧ smooth k xs ≤ measuredShare k xs.length * hi := by
  induction xs with
  | nil => simp [measuredShare, smooth]
  | cons x xs ih =>
    obtain ⟨hlo, hhi⟩ := ih (fun y hy => h y (List.mem_cons_of_mem _ hy))
    obtain ⟨hx, hx'⟩ := h x List.mem_cons_self
    have hpos : 0 < k + 1 := by linarith
    have hklo := mul_le_mul_of_nonneg_right hlo hk
    have hkhi := mul_le_mul_of_nonneg_right hhi hk
    rw [List.length_cons, share_succ hk, smooth]
    constructor
    · rw [div_mul_eq_mul_div, div_le_div_iff_of_pos_right hpos]
      linarith
    · rw [div_mul_eq_mul_div, div_le_div_iff_of_pos_right hpos]
      linarith

theorem smooth_none (x : ℚ) (xs : List ℚ) : smooth 0 (x :: xs) = x := by simp [smooth]

/-- The first measurement is not reached unless there is no smoothing. -/
theorem smooth_first_lt (hk : 0 < k) (hx : 0 < x) : smooth k [x] < x := by
  have hpos : 0 < k + 1 := by linarith
  simp only [smooth, zero_mul, add_zero]
  rw [div_lt_iff₀ hpos]
  nlinarith

end Lib.Smooth
