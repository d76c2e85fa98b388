import Mathlib.Data.List.Basic

namespace Lib.Window

/-- Overwrites memory from an offset on. -/
def overwrite (buf : List α) (off : Nat) (bs : List α) : List α :=
  buf.take off ++ bs ++ buf.drop (off + bs.length)

/-- The part of a buffer that has been filled and not yet drained. -/
def window (buf : List α) (lo hi : Nat) : List α := (buf.drop lo).take (hi - lo)

@[simp] theorem window_empty (buf : List α) (n : Nat) : window buf n n = [] := by simp [window]

theorem window_length (buf : List α) (lo hi : Nat) (h : hi ≤ buf.length) :
    (window buf lo hi).length = hi - lo := by
  simp only [window, List.length_take, List.length_drop]
  omega

theorem overwrite_length (buf : List α) (off : Nat) (bs : List α) (h : off ≤ buf.length) :
    off + bs.length ≤ (overwrite buf off bs).length := by
  simp only [overwrite, List.length_append, List.length_take, List.length_drop]
  omega

/-- Filling behind the window extends it. -/
theorem window_fill (buf : List α) (lo hi : Nat) (bs : List α) (hlo : lo ≤ hi)
    (hhi : hi ≤ buf.length) :
    window (overwrite buf hi bs) lo (hi + bs.length) = window buf lo hi ++ bs := by
  unfold window overwrite
  rw [List.append_assoc, List.drop_append_of_le_length (by simp; omega), List.drop_take]
  rw [List.take_append, List.take_of_length_le (by simp; omega)]
  congr 1
  rw [List.take_append_of_le_length (by simp; omega)]
  apply List.take_of_length_le
  simp only [List.length_take, List.length_drop]
  omega

/-- Draining from the front shortens the window by what was taken. -/
theorem window_drain (buf : List α) (lo hi n : Nat) (hn : lo + n ≤ hi) :
    (window buf lo hi).take n ++ window buf (lo + n) hi = window buf lo hi := by
  unfold window
  have hd : buf.drop (lo + n) = (buf.drop lo).drop n := by rw [List.drop_drop]
  have ht : (hi - lo) = n + (hi - (lo + n)) := by omega
  rw [List.take_take, hd, Nat.min_eq_left (by omega), ht, List.take_add]

end Lib.Window
