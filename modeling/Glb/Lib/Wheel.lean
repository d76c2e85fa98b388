import Mathlib.Data.List.Rotate

namespace Lib.Wheel

variable {p : α → Bool} {l : List α} {a x : α}

/-- Looks at up to `n` entries of a wheel, turning it by one each time, and stops
behind the first that passes. -/
def serve (p : α → Bool) : Nat → List α → List α × Option α
  | 0, l => (l, none)
  | _ + 1, [] => ([], none)
  | n + 1, x :: l => if p x then (l ++ [x], some x) else serve p n (l ++ [x])

/-- What `k` full turns in a row serve. -/
def served (p : α → Bool) : Nat → List α → List (Option α)
  | 0, _ => []
  | k + 1, l => (serve p l.length l).2 :: served p k (serve p l.length l).1

theorem serve_first (skip : List α) (hs : ∀ y ∈ skip, p y = false) (hx : p x = true) (n : Nat)
    (hn : skip.length < n) (l : List α) :
    serve p n (skip ++ x :: l) = (l ++ skip ++ [x], some x) := by
  induction skip generalizing n l with
  | nil =>
    obtain ⟨n, rfl⟩ := Nat.exists_eq_succ_of_ne_zero (Nat.ne_of_gt hn)
    simp [serve, hx]
  | cons y skip ih =>
    obtain ⟨n, rfl⟩ := Nat.exists_eq_succ_of_ne_zero (Nat.ne_of_gt (Nat.zero_lt_of_lt hn))
    have hy : p y = false := hs y (by simp)
    rw [List.cons_append, serve, if_neg (by simp [hy]), List.append_assoc, List.cons_append,
      ih (fun z hz => hs z (by simp [hz])) n (by simpa using hn)]
    simp

/-- A wheel on which nothing passes comes full circle. -/
theorem serve_none (skip l : List α) (hs : ∀ y ∈ skip, p y = false) :
    serve p skip.length (skip ++ l) = (l ++ skip, none) := by
  induction skip generalizing l with
  | nil => simp [serve]
  | cons y skip ih =>
    have hy : p y = false := hs y (by simp)
    rw [List.length_cons, List.cons_append, serve, if_neg (by simp [hy]), List.append_assoc,
      ih _ (fun z hz => hs z (by simp [hz]))]
    simp

/-- As many turns as there are passing entries ahead serve each of them, in the
order of the wheel. -/
theorem served_ahead (ahead behind : List α) :
    served p (ahead.filter p).length (ahead ++ behind) = (ahead.filter p).map some := by
  generalize hf : ahead.filter p = fs
  induction fs generalizing ahead behind with
  | nil => rfl
  | cons a fs ih =>
    -- the next turn skips to `a`, which then is the last entry behind
    obtain ⟨skip, rest, rfl, hs, ha, hrest⟩ := List.filter_eq_cons_iff.mp hf
    have hturn : serve p (skip ++ a :: rest ++ behind).length (skip ++ a :: rest ++ behind) =
        (rest ++ (behind ++ skip ++ [a]), some a) := by
      rw [List.append_assoc, List.cons_append,
        serve_first skip (fun y hy => by simpa using hs y hy) ha _ (by simp)]
      simp
    rw [List.length_cons, served, hturn, ih rest _ hrest, List.map_cons]

theorem served_all (l : List α) : served p (l.filter p).length l = (l.filter p).map some := by
  simpa using served_ahead (p := p) l []

/-- The wheel of the indexes below `n` with `c` in front. -/
def wheel (n c : Nat) : List Nat := (List.range n).rotate c

@[simp] theorem length_wheel (n c : Nat) : (wheel n c).length = n := by simp [wheel]

theorem mem_wheel {n c i : Nat} : i ∈ wheel n c ↔ i < n := by simp [wheel]

theorem nodup_wheel (n c : Nat) : (wheel n c).Nodup := by
  rw [wheel, List.nodup_rotate]
  exact List.nodup_range

/-- Moving the cursor on puts the entry under it at the end. -/
theorem wheel_turn {n c : Nat} (hc : c < n) :
    ∃ t, wheel n c = c :: t ∧ wheel n ((c + 1) % n) = t ++ [c] := by
  have hnext : wheel n ((c + 1) % n) = (wheel n c).rotate 1 := by
    have hm := List.rotate_mod (List.range n) (c + 1)
    rw [List.length_range] at hm
    rw [wheel, wheel, List.rotate_rotate, hm]
  cases hw : wheel n c with
  | nil =>
    have hlen := length_wheel n c
    rw [hw] at hlen
    simp only [List.length_nil] at hlen
    omega
  | cons x t =>
    have hx : x = c := by
      have h0 : (wheel n c)[0]? = some c := by
        rw [wheel, List.getElem?_rotate (by simpa using Nat.zero_lt_of_lt hc)]
        simp [Nat.mod_eq_of_lt hc, hc]
      simpa [hw] using h0
    refine ⟨t, by rw [hx], ?_⟩
    rw [hnext, hw, hx, List.rotate_cons_succ, List.rotate_zero]

end Lib.Wheel
