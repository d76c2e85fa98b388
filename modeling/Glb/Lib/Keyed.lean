import Glb.Lib.SwapRemove
import Mathlib.Data.List.Nodup
import Mathlib.Logic.Function.Basic

namespace Lib.Keyed
open Function Lib.SwapRemove

section slots
variable {K α : Type} {key : α → K} {l : List α} {x y : α} {i j : Nat} {f : α → α}

/-- No key is in the array twice, so it tells the slot. -/
theorem key_inj (hn : (l.map key).Nodup) (hx : l[i]? = some x) (hy : l[j]? = some y)
    (hk : key y = key x) : i = j := by
  obtain ⟨hi, _⟩ := List.getElem?_eq_some_iff.mp hx
  exact (List.getElem?_inj (by simpa using hi) hn).mp (by simp [hx, hy, hk])

/-- Who is in the array after one slot was changed. -/
theorem mem_modify (hn : (l.map key).Nodup) (hx : l[i]? = some x) :
    y ∈ l.modify i f ↔ y = f x ∨ (y ∈ l ∧ key y ≠ key x) := by
  simp only [List.mem_iff_getElem?, List.getElem?_modify]
  constructor
  · rintro ⟨j, hj⟩
    by_cases hij : i = j
    · subst hij
      have hy : f x = y := by simpa [hx] using hj
      exact Or.inl hy.symm
    · have hj : l[j]? = some y := by simpa [hij] using hj
      exact Or.inr ⟨⟨j, hj⟩, fun hk => hij (key_inj hn hx hj hk)⟩
  · rintro (rfl | ⟨⟨j, hj⟩, hk⟩)
    · exact ⟨i, by simp [hx]⟩
    · have hij : i ≠ j := by
        rintro rfl
        rw [hx, Option.some.injEq] at hj
        exact hk (congrArg key hj.symm)
      exact ⟨j, by simp [hij, hj]⟩

end slots

variable {K V α : Type} [DecidableEq K] {key : α → K} {val : α → V} {l l' : List α} {x : α} {i : Nat}
variable {k : K} {v : V}

/-- An unordered array whose elements carry their keys, read as a map. -/
def assoc (key : α → K) (val : α → V) (l : List α) (k : K) : Option V :=
  (l.find? (fun x => key x = k)).map val

theorem assoc_eq_none : assoc key val l k = none ↔ k ∉ l.map key := by
  simp only [assoc, Option.map_eq_none_iff, List.find?_eq_none, decide_eq_true_eq, List.mem_map,
    not_exists, not_and]

/-- No key is in the array twice, so what an element holds is what the map has. -/
theorem assoc_eq_some (hn : (l.map key).Nodup) :
    assoc key val l k = some v ↔ ∃ x ∈ l, key x = k ∧ val x = v := by
  constructor
  · intro h
    obtain ⟨x, hx, hv⟩ := Option.map_eq_some_iff.mp h
    exact ⟨x, List.mem_of_find?_eq_some hx, by simpa using List.find?_some hx, hv⟩
  · rintro ⟨x, hx, rfl, rfl⟩
    cases hf : l.find? (fun y => key y = key x) with
    | none =>
      have hne := List.find?_eq_none.mp hf x hx
      simp at hne
    | some y =>
      have hk : key y = key x := by simpa using List.find?_some hf
      have hy : y = x := List.inj_on_of_nodup_map hn (List.mem_of_find?_eq_some hf) hx hk
      simp [assoc, hf, hy]

theorem assoc_mem (hn : (l.map key).Nodup) (hx : x ∈ l) : assoc key val l (key x) = some (val x) :=
  (assoc_eq_some hn).mpr ⟨x, hx, rfl, rfl⟩

/-- The map does not depend on the order, nor on what `key` and `val` do not see. -/
theorem assoc_congr (hn : (l.map key).Nodup)
    (hp : (l.map fun x => (key x, val x)).Perm (l'.map fun x => (key x, val x))) :
    assoc key val l' = assoc key val l := by
  have hkeys : ∀ l : List α, (l.map fun x => (key x, val x)).map Prod.fst = l.map key := by
    intro l
    simp
  have hn' : (l'.map key).Nodup := by
    have h := (hp.map Prod.fst).nodup (by rwa [hkeys])
    rwa [hkeys] at h
  funext k
  apply Option.ext
  intro v
  rw [assoc_eq_some hn, assoc_eq_some hn']
  have hm : (k, v) ∈ (l'.map fun x => (key x, val x)) ↔ (k, v) ∈ (l.map fun x => (key x, val x)) :=
    hp.symm.mem_iff
  simpa only [List.mem_map, Prod.mk.injEq] using hm

theorem assoc_append (hn : (l.map key).Nodup) (hk : key x ∉ l.map key) :
    ((l ++ [x]).map key).Nodup ∧
      assoc key val (l ++ [x]) = update (assoc key val l) (key x) (some (val x)) := by
  have hn' : ((l ++ [x]).map key).Nodup := by
    rw [List.map_append]
    refine List.nodup_append.mpr ⟨hn, by simp, ?_⟩
    intro a ha b hb hab
    simp only [List.map_cons, List.map_nil, List.mem_singleton] at hb
    exact hk (hb ▸ hab ▸ ha)
  refine ⟨hn', ?_⟩
  funext k
  by_cases hkx : k = key x
  · subst hkx
    rw [update_self]
    exact assoc_mem hn' (by simp)
  · rw [update_of_ne hkx]
    have hne : key x ≠ k := fun h => hkx h.symm
    simp [assoc, hne]

theorem assoc_swapRemove (hn : (l.map key).Nodup) (hx : l[i]? = some x) :
    ((swapRemove l i).map key).Nodup ∧
      assoc key val (swapRemove l i) = update (assoc key val l) (key x) none := by
  have hp := swapRemove_perm l i x hx
  have hn2 : (key x :: (swapRemove l i).map key).Nodup := (hp.map key).nodup hn
  obtain ⟨hnot, hn'⟩ := List.nodup_cons.mp hn2
  refine ⟨hn', ?_⟩
  funext k
  by_cases hkx : k = key x
  · subst hkx
    rw [update_self]
    exact assoc_eq_none.mpr hnot
  · rw [update_of_ne hkx, ← assoc_congr hn (hp.map fun x => (key x, val x))]
    have hne : key x ≠ k := fun h => hkx h.symm
    simp [assoc, hne]

/-- Changing an element without changing its key changes the map at that key. -/
theorem assoc_modify (f : α → α) (hf : ∀ x, key (f x) = key x) (hn : (l.map key).Nodup)
    (hx : l[i]? = some x) :
    ((l.modify i f).map key).Nodup ∧
      assoc key val (l.modify i f) = update (assoc key val l) (key x) (some (val (f x))) := by
  have hkeys : (l.modify i f).map key = l.map key := by
    apply List.ext_getElem?
    intro j
    rw [List.getElem?_map, List.getElem?_map, List.getElem?_modify]
    cases l[j]? with
    | none => rfl
    | some y => by_cases hj : i = j <;> simp [hj, hf]
  have hn' : ((l.modify i f).map key).Nodup := hkeys ▸ hn
  refine ⟨hn', ?_⟩
  have hget : (l.modify i f)[i]? = some (f x) := by simp [hx]
  funext k
  by_cases hkx : k = key x
  · subst hkx
    rw [update_self, ← hf x]
    exact assoc_mem hn' (List.mem_of_getElem? hget)
  · rw [update_of_ne hkx]
    apply Option.ext
    intro v
    rw [assoc_eq_some hn', assoc_eq_some hn]
    constructor
    · rintro ⟨y, hy, rfl, rfl⟩
      rcases (mem_modify hn hx).mp hy with rfl | ⟨hy, _⟩
      · exact absurd (hf x) hkx
      · exact ⟨y, hy, rfl, rfl⟩
    · rintro ⟨y, hy, rfl, rfl⟩
      exact ⟨y, (mem_modify hn hx).mpr (Or.inr ⟨hy, hkx⟩), rfl, rfl⟩

end Lib.Keyed
