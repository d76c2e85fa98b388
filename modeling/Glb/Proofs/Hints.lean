import Glb.Router
import Glb.Lib.Gray
import Mathlib.Data.Set.Card
import Mathlib.Order.Interval.Finset.Nat

namespace Glb.Proofs.Hints
open Lib.Gray

variable {r s : UInt32} {a b j : Nat}

/-- What `rand_r ()` returns is not negative as an `int`. -/
def Rand (r : UInt32) : Prop := r.toNat < 2 ^ 31

/-- Below the lowest bit a hint is the Gray code of the random value. -/
theorem hint_half (hr : Rand r) : (routerRandomHint r).toNat / 2 = gray r.toNat := by
  have hshift : (r <<< 1).toNat = r.toNat <<< 1 := by
    rw [UInt32.toNat_shiftLeft]
    apply Nat.mod_eq_of_lt
    rw [show (1 : UInt32).toNat % 32 = 1 from rfl, Nat.shiftLeft_eq]
    have : r.toNat < 2 ^ 31 := hr
    omega
  unfold routerRandomHint
  rw [UInt32.toNat_xor, hshift, ← Nat.shiftRight_one, gray]
  apply Nat.eq_of_testBit_eq
  intro i
  simp only [Nat.testBit_shiftRight, Nat.testBit_xor, Nat.testBit_shiftLeft]
  rw [Nat.add_comm 1 i, Nat.add_sub_cancel, decide_eq_true (Nat.le_add_left 1 i), Bool.true_and, Bool.xor_comm]

theorem hint_half_inj (hr : Rand r) (hs : Rand s)
    (h : (routerRandomHint r).toNat / 2 = (routerRandomHint s).toNat / 2) : r = s := by
  apply UInt32.toNat_inj.mp
  apply gray_inj
  rw [← hint_half hr, ← hint_half hs, h]

theorem hint_reached (hj : j < 2 ^ 31) : ∃ r, Rand r ∧ (routerRandomHint r).toNat / 2 = j := by
  obtain ⟨x, hx, rfl⟩ := gray_surj hj
  have hround : (UInt32.ofNat x).toNat = x := UInt32.toNat_ofNat_of_lt' (lt_trans hx (by decide))
  have hr : Rand (.ofNat x) := by
    unfold Rand
    rwa [hround]
  refine ⟨.ofNat x, hr, ?_⟩
  rw [hint_half hr, hround]

/-- The random values whose hints lie between two even ones. -/
def landing (a b : Nat) : Set UInt32 :=
  {r | Rand r ∧ 2 * a ≤ (routerRandomHint r).toNat ∧ (routerRandomHint r).toNat < 2 * b}

theorem landing_halves (hb : b ≤ 2 ^ 31) :
    (fun r => (routerRandomHint r).toNat / 2) '' landing a b = Set.Ico a b := by
  ext j
  constructor
  · rintro ⟨r, ⟨_, hge, hlt⟩, rfl⟩
    constructor
    · change a ≤ (routerRandomHint r).toNat / 2
      omega
    · change (routerRandomHint r).toNat / 2 < b
      omega
  · rintro ⟨hge, hlt⟩
    obtain ⟨r, hr, hj⟩ := hint_reached (lt_of_lt_of_le hlt hb)
    exact ⟨r, ⟨hr, by omega, by omega⟩, hj⟩

theorem landing_card (hb : b ≤ 2 ^ 31) : (landing a b).ncard = b - a := by
  have hinj : Set.InjOn (fun r => (routerRandomHint r).toNat / 2) (landing a b) := by
    intro r hr s hs h
    exact hint_half_inj hr.1 hs.1 h
  rw [← hinj.ncard_image, landing_halves hb, ← Finset.coe_Ico, Set.ncard_coe_finset, Nat.card_Ico]

/-- The hints are spread evenly: no two random values have the same, of two neighbours
one is a hint, and so half of those in any interval are. -/
theorem random_hints_spread :
    (∀ r s, Rand r → Rand s → routerRandomHint r = routerRandomHint s → r = s) ∧
      (∀ j < 2 ^ 31, ∃! h : UInt32, (h.toNat = 2 * j ∨ h.toNat = 2 * j + 1) ∧
        ∃ r, Rand r ∧ routerRandomHint r = h) ∧
      ∀ a b, a ≤ b → b ≤ 2 ^ 31 → 2 * (landing a b).ncard = 2 * b - 2 * a := by
  refine ⟨fun r s hr hs h => hint_half_inj hr hs (by rw [h]), fun j hj => ?_, fun a b _ hb => ?_⟩
  · obtain ⟨r, hr, hhalf⟩ := hint_reached hj
    refine ⟨routerRandomHint r, ⟨by omega, r, hr, rfl⟩, ?_⟩
    rintro h ⟨hh, s, hs, rfl⟩
    rw [hint_half_inj hs hr (by omega)]
  · rw [landing_card hb]
    omega

end Glb.Proofs.Hints
