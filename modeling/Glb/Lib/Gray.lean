import Mathlib.Data.Nat.Bitwise
import Mathlib.Data.Fintype.EquivFin
import Mathlib.Data.Fintype.Card

namespace Lib.Gray

variable {n x y j : Nat}

/-- The binary reflected Gray code. -/
def gray (x : Nat) : Nat := x ^^^ (x >>> 1)

theorem gray_xor (x y : Nat) : gray x ^^^ gray y = gray (x ^^^ y) := by
  apply Nat.eq_of_testBit_eq
  intro i
  simp only [gray, Nat.testBit_xor, Nat.testBit_shiftRight]
  cases x.testBit i <;> cases x.testBit (1 + i) <;> cases y.testBit i <;> cases y.testBit (1 + i) <;> rfl

/-- Only 0 is half of itself. -/
theorem gray_eq_zero (h : gray x = 0) : x = 0 := by
  have hhalf : x = x >>> 1 := Nat.xor_eq_zero_iff.mp h
  rw [Nat.shiftRight_one] at hhalf
  omega

theorem gray_inj (h : gray x = gray y) : x = y := by
  apply Nat.xor_eq_zero_iff.mp
  apply gray_eq_zero
  rw [← gray_xor, h, Nat.xor_self]

theorem gray_lt (h : x < 2 ^ n) : gray x < 2 ^ n := by
  apply Nat.xor_lt_two_pow h
  exact lt_of_le_of_lt (Nat.shiftRight_le x 1) h

/-- It takes every value below a power of two. -/
theorem gray_surj (h : j < 2 ^ n) : ∃ x, x < 2 ^ n ∧ gray x = j := by
  let code : Fin (2 ^ n) → Fin (2 ^ n) := fun x => ⟨gray x, gray_lt x.isLt⟩
  have hinj : Function.Injective code := by
    intro x y hxy
    exact Fin.ext (gray_inj (Fin.mk.inj hxy))
  obtain ⟨x, hx⟩ := Finite.surjective_of_injective hinj ⟨j, h⟩
  exact ⟨x, x.isLt, Fin.mk.inj hx⟩

end Lib.Gray
