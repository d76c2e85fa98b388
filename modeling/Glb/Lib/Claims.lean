import Mathlib.Logic.Function.Basic

namespace Lib.Claims
open Function

variable {O K : Type} {claim : O → Option K} {live : K → Bool} {o o' : O} {k k' : K}

/-- Who holds what: nothing has two holders, and whatever is held is live. -/
structure Sound (claim : O → Option K) (live : K → Bool) : Prop where
  inj : ∀ {o o' k}, claim o = some k → claim o' = some k → o = o'
  live : ∀ {o k}, claim o = some k → live k = true

theorem Sound.ne (h : Sound claim live) (ho : claim o = some k) (ho' : claim o' = some k')
    (hne : o ≠ o') : k ≠ k' := by
  intro hk
  exact hne (h.inj ho (hk ▸ ho'))

/-- What is not live is free to be handed out. -/
theorem Sound.unclaimed (h : Sound claim live) (hk : live k = false) (o : O) :
    claim o ≠ some k := by
  intro ho
  have hl := h.live ho
  rw [hk] at hl
  cases hl

/-- Something that nobody holds ceases to be live. -/
theorem Sound.retire [DecidableEq K] (h : Sound claim live) (hk : ∀ o, claim o ≠ some k) :
    Sound claim (update live k false) where
  inj := h.inj
  live := by
    intro o k' ho
    have hne : k' ≠ k := by
      intro he
      exact hk o (he ▸ ho)
    simpa [hne] using h.live ho

theorem Sound.revive [DecidableEq K] (h : Sound claim live) (k : K) : Sound claim (update live k true) where
  inj := h.inj
  live := by
    intro o k' ho
    by_cases e : k' = k
    · simp [e]
    · simpa [e] using h.live ho

variable [DecidableEq O]

theorem update_some (ho : update claim o none o' = some k) : o' ≠ o ∧ claim o' = some k := by
  by_cases he : o' = o
  · subst he
    simp at ho
  · exact ⟨he, by simpa [he] using ho⟩

theorem Sound.drop (h : Sound claim live) (o : O) : Sound (update claim o none) live where
  inj h1 h2 := h.inj (update_some h1).2 (update_some h2).2
  live h1 := h.live (update_some h1).2

theorem drop_unclaimed (h : Sound claim live) (ho : claim o = some k) (o' : O) :
    update claim o none o' ≠ some k := by
  intro hc
  obtain ⟨hne, hc⟩ := update_some hc
  exact hne (h.inj hc ho)

/-- A new holder of something that nobody else holds. -/
theorem Sound.take (h : Sound claim live) (hk : ∀ o, claim o ≠ some k) (hl : live k = true)
    (o : O) : Sound (update claim o (some k)) live where
  inj := by
    intro o1 o2 k' h1 h2
    by_cases e1 : o1 = o <;> by_cases e2 : o2 = o
    · exact e1.trans e2.symm
    · simp only [e1, update_self, Option.some.injEq, update_of_ne e2] at h1 h2
      exact absurd (h1 ▸ h2) (hk o2)
    · simp only [e2, update_self, Option.some.injEq, update_of_ne e1] at h1 h2
      exact absurd (h2 ▸ h1) (hk o1)
    · simp only [update_of_ne e1, update_of_ne e2] at h1 h2
      exact h.inj h1 h2
  live := by
    intro o1 k' h1
    by_cases e1 : o1 = o
    · simp only [e1, update_self, Option.some.injEq] at h1
      exact h1 ▸ hl
    · simp only [update_of_ne e1] at h1
      exact h.live h1

/-- A holder hands over what it holds. -/
theorem Sound.pass (h : Sound claim live) (hk : claim o = some k) (o' : O) :
    Sound (update (update claim o none) o' (some k)) live :=
  (h.drop o).take (drop_unclaimed h hk) (h.live hk) o'

/-- Something new gets its first holder. -/
theorem Sound.create [DecidableEq K] (h : Sound claim live) (hk : live k = false) (o : O) :
    Sound (update claim o (some k)) (update live k true) :=
  (h.revive k).take (h.unclaimed hk) (by simp) o

end Lib.Claims
